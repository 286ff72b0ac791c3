import Mathlib.Algebra.Order.BigOperators.Group.List
import Mathlib.Data.List.Nodup
import VynkorPlugins.VectorDb.Loaded

/-!
# The rows of a collection in memory

A copy holds a list of rows: a pushed row takes the place of the one with its id or comes last, and the
last row takes the place of a removed one.
-/

namespace VectorDb

variable {F : Type}

/-- A row as a copy holds it. -/
structure Entry (F : Type) where
  id : String
  vector : List F
  metadata : Meta
  meta_len : Nat

namespace Entry

def overhead (e : Entry F) : Nat :=
  row_overhead e.id.utf8ByteSize e.meta_len

def ofRow (serde : Serde) (id : String) (vector : List F) (meta_json : String) : Entry F where
  id
  vector
  metadata := parse_meta serde meta_json
  meta_len := meta_json.utf8ByteSize

/-- The place of an id. -/
def place (R : List (Entry F)) (id : String) : Option Nat :=
  R.findIdx? fun e => e.id = id

def push (R : List (Entry F)) (e : Entry F) : List (Entry F) :=
  match place R e.id with
  | some i => R.set i e
  | none => R ++ [e]

def remove (R : List (Entry F)) (id : String) : List (Entry F) :=
  match place R id with
  | some i => (Loaded.swap R i (R.length - 1)).dropLast
  | none => R

end Entry

/-- The rows that a copy holds, in the order of their places. -/
structure Loaded.Holds (l : Loaded F) (R : List (Entry F)) : Prop where
  ids : l.ids = R.map Entry.id
  data : l.data = R.flatMap Entry.vector
  metadata : l.metadata = R.map Entry.metadata
  meta_lens : l.meta_lens = R.map Entry.meta_len
  index : ∀ (id : String) (i : Nat), l.index[id]? = some i ↔ (R[i]?).map Entry.id = some id
  nodup : (R.map Entry.id).Nodup
  dims : ∀ e ∈ R, e.vector.length = l.dim
  overhead : l.overhead = (R.map Entry.overhead).sum

/-! ## Chunks of one length -/

section

variable {dim : Nat} {R : List (Entry F)}

theorem take_flatMap (h : ∀ e ∈ R, e.vector.length = dim) (i : Nat) :
    (R.flatMap Entry.vector).take (i * dim) = (R.take i).flatMap Entry.vector := by
  induction R generalizing i with
  | nil => simp
  | cons e R ih =>
    have he := h e List.mem_cons_self
    cases i with
    | zero => simp
    | succ i =>
      rw [List.flatMap_cons, List.take_succ_cons, List.flatMap_cons, List.take_append, he,
        List.take_of_length_le (by rw [he]; exact Nat.le_mul_of_pos_left _ (Nat.succ_pos _)),
        ← ih (fun e' he' => h e' (List.mem_cons_of_mem _ he'))]
      congr 2
      rw [Nat.succ_mul, Nat.add_sub_cancel]

theorem drop_flatMap (h : ∀ e ∈ R, e.vector.length = dim) (i : Nat) :
    (R.flatMap Entry.vector).drop (i * dim) = (R.drop i).flatMap Entry.vector := by
  induction R generalizing i with
  | nil => simp
  | cons e R ih =>
    have he := h e List.mem_cons_self
    cases i with
    | zero => simp
    | succ i =>
      rw [List.flatMap_cons, List.drop_succ_cons, List.drop_append, he,
        List.drop_of_length_le (by rw [he]; exact Nat.le_mul_of_pos_left _ (Nat.succ_pos _)),
        List.nil_append, ← ih (fun e' he' => h e' (List.mem_cons_of_mem _ he'))]
      congr 1
      rw [Nat.succ_mul, Nat.add_sub_cancel]

theorem copyRow_flatMap (h : ∀ e ∈ R, e.vector.length = dim) {i : Nat} (hi : i < R.length)
    (e : Entry F) :
    Loaded.copyRow dim i e.vector (R.flatMap Entry.vector) = (R.set i e).flatMap Entry.vector := by
  unfold Loaded.copyRow
  rw [take_flatMap h, drop_flatMap h, List.set_eq_take_append_cons_drop, if_pos hi]
  simp [List.append_assoc]

end

/-! ## Places -/

section

variable {R : List (Entry F)} {id : String} {i : Nat}

theorem place_eq_some (hnodup : (R.map Entry.id).Nodup) :
    Entry.place R id = some i ↔ (R[i]?).map Entry.id = some id := by
  unfold Entry.place
  rw [List.findIdx?_eq_some_iff_getElem, ← List.getElem?_map, List.getElem?_eq_some_iff]
  constructor
  · rintro ⟨hi, hid, -⟩
    exact ⟨by simpa using hi, by simpa using hid⟩
  · rintro ⟨hi, hid⟩
    have hi' : i < R.length := by simpa using hi
    refine ⟨hi', by simpa using hid, fun j hji => ?_⟩
    simp only [decide_eq_true_eq]
    intro hj
    have hjlt : j < (R.map Entry.id).length := hji.trans hi
    have heq : (R.map Entry.id)[j] = (R.map Entry.id)[i] := by
      rw [hid, List.getElem_map, hj]
    exact hji.ne ((List.Nodup.getElem_inj_iff hnodup).mp heq)

theorem place_eq_none : Entry.place R id = none ↔ id ∉ R.map Entry.id := by
  unfold Entry.place
  rw [List.findIdx?_eq_none_iff]
  simp

/-- The sum after one of its terms has changed. -/
theorem sum_set {α : Type} (f : α → Nat) {l : List α} {i : Nat} {a : α} (h : l[i]? = some a) (b : α) :
    ((l.set i b).map f).sum + f a = (l.map f).sum + f b := by
  induction l generalizing i with
  | nil => cases h
  | cons x l ih =>
    cases i with
    | zero =>
      obtain rfl := Option.some.inj h
      simp only [List.set_cons_zero, List.map_cons, List.sum_cons]
      omega
    | succ i =>
      have hl := ih (by simpa using h)
      simp only [List.set_cons_succ, List.map_cons, List.sum_cons]
      omega

end

theorem getElem?_concat {α : Type} {l : List α} {a b : α} {j : Nat} :
    (l ++ [a])[j]? = some b ↔ l[j]? = some b ∨ j = l.length ∧ a = b := by
  rw [List.getElem?_append]
  split_ifs with hj
  · refine (or_iff_left ?_).symm
    rintro ⟨rfl, -⟩
    exact Nat.lt_irrefl _ hj
  · rw [List.getElem?_eq_none (not_lt.mp hj), List.getElem?_singleton]
    split_ifs with hzero
    · have heq : j = l.length := by omega
      simp [heq]
    · have hne : j ≠ l.length := by omega
      simp [hne]

/-! ## Moving the last row -/

theorem swap_eq {α : Type} {l : List α} {i j : Nat} {a b : α} (ha : l[i]? = some a)
    (hb : l[j]? = some b) : Loaded.swap l i j = (l.set i b).set j a := by
  unfold Loaded.swap
  rw [ha, hb]

theorem swap_map {α β : Type} (f : α → β) (l : List α) (i j : Nat) :
    Loaded.swap (l.map f) i j = (Loaded.swap l i j).map f := by
  unfold Loaded.swap
  rw [List.getElem?_map, List.getElem?_map]
  cases l[i]? with
  | none => rfl
  | some a =>
    cases l[j]? with
    | none => rfl
    | some b => simp only [Option.map_some, List.map_set]

/-- What takes the place of a removed row. -/
theorem swap_last {α : Type} {l : List α} {i : Nat} {a : α} (ha : l[i]? = some a) :
    ∃ b, l[l.length - 1]? = some b ∧
      (Loaded.swap l i (l.length - 1)).dropLast = (l.set i b).take (l.length - 1) ∧
      l.Perm (a :: (Loaded.swap l i (l.length - 1)).dropLast) := by
  obtain ⟨hi, rfl⟩ := List.getElem?_eq_some_iff.mp ha
  have hlast : l.length - 1 < l.length := by omega
  have hb : l[l.length - 1]? = some l[l.length - 1] := List.getElem?_eq_getElem hlast
  refine ⟨_, hb, ?_, ?_⟩
  · rw [swap_eq ha hb, List.dropLast_eq_take, List.length_set, List.length_set,
      List.take_set_of_le (Nat.le_refl _)]
  · rw [swap_eq ha hb]
    have hsplit : (l.set i l[l.length - 1]).set (l.length - 1) l[i] =
        ((l.set i l[l.length - 1]).set (l.length - 1) l[i]).dropLast ++ [l[i]] := by
      refine (List.dropLast_append_getLast? _ ?_).symm
      rw [List.getLast?_eq_getElem?, List.length_set, List.length_set]
      simp [hlast]
    refine (List.set_set_perm hi hlast).symm.trans ?_
    nth_rewrite 1 [hsplit]
    exact List.perm_append_singleton _ _

theorem swap_self {α : Type} (l : List α) (i : Nat) : Loaded.swap l i i = l := by
  unfold Loaded.swap
  cases h : l[i]? with
  | none => rfl
  | some a =>
    obtain ⟨hi, rfl⟩ := List.getElem?_eq_some_iff.mp h
    simp

/-! ## What the rows are after an operation -/

section

variable {R : List (Entry F)} {e e' : Entry F} {id : String}

theorem mem_push (hnodup : (R.map Entry.id).Nodup) :
    e' ∈ Entry.push R e ↔ e' = e ∨ e' ∈ R ∧ e'.id ≠ e.id := by
  unfold Entry.push
  cases hplace : Entry.place R e.id with
  | some i =>
    have hid := (place_eq_some hnodup).mp hplace
    obtain ⟨old, hold, holdid⟩ := Option.map_eq_some_iff.mp hid
    obtain ⟨hi, -⟩ := List.getElem?_eq_some_iff.mp hold
    constructor
    · intro he'
      obtain ⟨j, hj⟩ := List.mem_iff_getElem?.mp he'
      rw [List.getElem?_set] at hj
      split_ifs at hj with hij
      · exact .inl (Option.some.inj hj).symm
      · refine .inr ⟨List.mem_of_getElem? hj, fun heq => hij ?_⟩
        have hjid : (R[j]?).map Entry.id = some e.id := by rw [hj, Option.map_some, heq]
        exact Option.some.inj (hplace.symm.trans ((place_eq_some hnodup).mpr hjid))
    · rintro (rfl | ⟨hmem, hne⟩)
      · exact List.mem_set hi _
      · obtain ⟨j, hj⟩ := List.mem_iff_getElem?.mp hmem
        refine List.mem_of_getElem? (i := j) ?_
        rw [List.getElem?_set, if_neg, hj]
        rintro rfl
        obtain rfl := Option.some.inj (hold.symm.trans hj)
        exact hne holdid
  | none =>
    have hnot := place_eq_none.mp hplace
    rw [List.mem_append, List.mem_singleton, or_comm]
    refine or_congr_right (and_iff_left_of_imp fun hmem heq => hnot ?_).symm
    rw [← heq]
    exact List.mem_map_of_mem hmem

theorem mem_remove (hnodup : (R.map Entry.id).Nodup) :
    e ∈ Entry.remove R id ↔ e ∈ R ∧ e.id ≠ id := by
  unfold Entry.remove
  cases hplace : Entry.place R id with
  | some i =>
    obtain ⟨old, hold, holdid⟩ := Option.map_eq_some_iff.mp ((place_eq_some hnodup).mp hplace)
    obtain ⟨-, -, -, hperm⟩ := swap_last hold
    have hall := (hperm.map Entry.id).nodup_iff.mp hnodup
    rw [List.map_cons, List.nodup_cons, holdid] at hall
    rw [hperm.mem_iff, List.mem_cons]
    constructor
    · intro he
      refine ⟨.inr he, ?_⟩
      rintro rfl
      exact hall.1 (List.mem_map_of_mem he)
    · rintro ⟨rfl | he, hne⟩
      · exact (hne holdid).elim
      · exact he
  | none =>
    refine (and_iff_left_of_imp fun hmem heq => place_eq_none.mp hplace ?_).symm
    rw [← heq]
    exact List.mem_map_of_mem hmem

end

/-! ## Pushing -/

section

variable {serde : Serde} {l : Loaded F} {R : List (Entry F)} {id : String}

theorem holds_new (dim : Nat) : (Loaded.new dim : Loaded F).Holds [] := by
  refine ⟨rfl, rfl, rfl, rfl, ?_, List.nodup_nil, ?_, rfl⟩
  · intro id i
    simp [Loaded.new]
  · intro e he
    cases he

theorem Loaded.Holds.place (h : l.Holds R) : l.index[id]? = Entry.place R id := by
  refine Option.ext fun i => ?_
  rw [h.index, ← place_eq_some h.nodup]

theorem Loaded.Holds.overheadAt (h : l.Holds R) {i : Nat} {e : Entry F} (he : R[i]? = some e) :
    l.overheadAt i = e.overhead := by
  unfold Loaded.overheadAt Entry.overhead
  rw [h.ids, h.meta_lens, List.getD_eq_getElem?_getD, List.getD_eq_getElem?_getD, List.getElem?_map,
    List.getElem?_map, he]
  rfl

theorem overhead_le {i : Nat} {e : Entry F} (he : R[i]? = some e) :
    e.overhead ≤ (R.map Entry.overhead).sum :=
  List.single_le_sum (by simp) _ (List.mem_map.mpr ⟨e, List.mem_of_getElem? he, rfl⟩)

/-- What a row is replaced by has the same id. -/
theorem map_id_set {i : Nat} {e e' : Entry F} (he : R[i]? = some e) (hid : e'.id = e.id) :
    (R.set i e').map Entry.id = R.map Entry.id := by
  rw [List.map_set, hid]
  refine List.ext_getElem? fun j => ?_
  rw [List.getElem?_set]
  split_ifs with hij hlt
  · subst hij
    rw [List.getElem?_map, he]
    rfl
  · subst hij
    rw [List.getElem?_eq_none (by simpa using hlt)]
  · rfl

theorem holds_push (h : l.Holds R) {vector : List F} {meta_json : String}
    (hdim : vector.length = l.dim) :
    (l.push serde id vector meta_json).Holds (Entry.push R (.ofRow serde id vector meta_json)) := by
  set e : Entry F := .ofRow serde id vector meta_json with he
  unfold Loaded.push Entry.push
  rw [h.place, show e.id = id from rfl]
  cases hplace : Entry.place R id with
  | some i =>
    have hid := (place_eq_some h.nodup).mp hplace
    obtain ⟨old, hold, holdid⟩ := Option.map_eq_some_iff.mp hid
    obtain ⟨hi, -⟩ := List.getElem?_eq_some_iff.mp hold
    have hids : (R.set i e).map Entry.id = R.map Entry.id := map_id_set hold holdid.symm
    constructor
    · exact h.ids.trans hids.symm
    · simp only [h.data]
      exact copyRow_flatMap h.dims hi e
    · simp only [h.metadata, List.map_set]
      rfl
    · simp only [h.meta_lens, List.map_set]
      rfl
    · intro id' j
      rw [← List.getElem?_map, hids, List.getElem?_map]
      exact h.index id' j
    · rw [hids]
      exact h.nodup
    · intro e' he'
      rcases List.mem_or_eq_of_mem_set he' with hmem | rfl
      · exact h.dims e' hmem
      · exact hdim
    · have hsum := sum_set Entry.overhead hold e
      have hle := overhead_le hold
      simp only [h.overheadAt hold, h.overhead]
      change _ - _ + e.overhead = _
      omega
  | none =>
    have hnot := place_eq_none.mp hplace
    constructor
    · simp only [h.ids, List.map_append, List.map_cons, List.map_nil]
      rfl
    · simp only [h.data, List.flatMap_append, List.flatMap_cons, List.flatMap_nil, List.append_nil]
      rfl
    · simp only [h.metadata, List.map_append, List.map_cons, List.map_nil]
      rfl
    · simp only [h.meta_lens, List.map_append, List.map_cons, List.map_nil]
      rfl
    · intro id' j
      simp only [Table.getElem?_insert_ite, h.ids, List.length_map]
      rw [← List.getElem?_map, List.map_append, List.map_cons, List.map_nil, getElem?_concat,
        List.length_map, show e.id = id from rfl]
      by_cases hid' : id = id'
      · subst hid'
        have hnone : (R.map Entry.id)[j]? ≠ some id := fun hj => hnot (List.mem_of_getElem? hj)
        rw [if_pos rfl, or_iff_right hnone, Option.some.injEq, and_iff_left rfl, eq_comm]
      · rw [if_neg hid', h.index, ← List.getElem?_map]
        simp [hid']
    · rw [List.map_append, List.nodup_append]
      refine ⟨h.nodup, by simp, ?_⟩
      rintro a ha b hb rfl
      rw [List.map_cons, List.map_nil, List.mem_singleton] at hb
      rw [hb] at ha
      exact hnot ha
    · intro e' he'
      rcases List.mem_append.mp he' with hmem | hmem
      · exact h.dims e' hmem
      · rw [List.mem_singleton.mp hmem]
        exact hdim
    · simp only [h.overhead, List.map_append, List.sum_append]
      rfl

/-! ## Removing -/

/-- The last row is the vector at the end of the array. -/
theorem lastRow_eq (h : l.Holds R) {b : Entry F} (hb : R[R.length - 1]? = some b) :
    (l.data.drop ((R.length - 1) * l.dim)).take l.dim = b.vector := by
  obtain ⟨hlt, hget⟩ := List.getElem?_eq_some_iff.mp hb
  have hdrop : R.drop (R.length - 1) = [b] := by
    rw [List.drop_eq_getElem_cons hlt, hget, List.drop_of_length_le (by omega)]
  rw [h.data, drop_flatMap h.dims, hdrop, List.flatMap_cons, List.flatMap_nil, List.append_nil,
    List.take_of_length_le]
  rw [h.dims b (List.mem_of_getElem? hb)]

/-- Where the ids are after a removal. -/
theorem getElem?_removed {i : Nat} {e b : Entry F} (hnodup : (R.map Entry.id).Nodup)
    (he : R[i]? = some e) (hb : R[R.length - 1]? = some b) (id : String) (j : Nat) :
    ((((R.set i b).take (R.length - 1))[j]?).map Entry.id = some id) ↔
      if b.id = id ∧ i ≠ R.length - 1 then j = i else e.id ≠ id ∧ (R[j]?).map Entry.id = some id := by
  have hinj : ∀ {j k : Nat} {id : String}, (R[j]?).map Entry.id = some id →
      (R[k]?).map Entry.id = some id → j = k := by
    intro j k id hj hk
    exact Option.some.inj (((place_eq_some hnodup).mpr hj).symm.trans ((place_eq_some hnodup).mpr hk))
  have hei : (R[i]?).map Entry.id = some e.id := by
    rw [he]
    rfl
  have hbi : (R[R.length - 1]?).map Entry.id = some b.id := by
    rw [hb]
    rfl
  obtain ⟨hi, -⟩ := List.getElem?_eq_some_iff.mp he
  rw [List.getElem?_take, List.getElem?_set]
  by_cases hj : j < R.length - 1
  · rw [if_pos hj]
    by_cases hij : i = j
    · subst hij
      rw [if_pos rfl, if_pos hi, he]
      simp only [Option.map_some, Option.some.injEq, hj.ne, ne_eq, not_false_eq_true, and_true]
      split_ifs with hbid
      · simp [hbid]
      · simp [hbid]
    · rw [if_neg hij]
      split_ifs with hbid
      · refine iff_of_false (fun hid => ?_) (Ne.symm hij)
        rw [← hbid.1] at hid
        exact hj.ne (hinj hid hbi)
      · refine (and_iff_right_of_imp fun hid heid => ?_).symm
        rw [← heid] at hid
        exact hij (hinj hei hid)
  · rw [if_neg hj]
    simp only [Option.map_none, reduceCtorEq, false_iff]
    split_ifs with hbid
    · rintro rfl
      have hlast := hbid.2
      omega
    · rintro ⟨heid, hid⟩
      obtain ⟨x, hx, -⟩ := Option.map_eq_some_iff.mp hid
      obtain ⟨hjlt, -⟩ := List.getElem?_eq_some_iff.mp hx
      have hjlast : j = R.length - 1 := by omega
      rw [hjlast, hbi, Option.some.injEq] at hid
      have hilast : i = R.length - 1 := by
        by_contra hne
        exact hbid ⟨hid, hne⟩
      rw [hilast, hb, Option.some.injEq] at he
      rw [← he] at heid
      exact heid hid

theorem holds_remove (h : l.Holds R) : (l.remove id).1.Holds (Entry.remove R id) := by
  unfold Loaded.remove Entry.remove
  rw [h.place]
  cases hplace : Entry.place R id with
  | none => exact h
  | some i =>
    have hid := (place_eq_some h.nodup).mp hplace
    obtain ⟨e, he, heid⟩ := Option.map_eq_some_iff.mp hid
    obtain ⟨hi, -⟩ := List.getElem?_eq_some_iff.mp he
    obtain ⟨b, hb, htake, hperm⟩ := swap_last he
    have hlength : l.ids.length = R.length := by rw [h.ids, List.length_map]
    have hdims : ∀ e' ∈ R.set i b, e'.vector.length = l.dim := by
      intro e' he'
      rcases List.mem_or_eq_of_mem_set he' with hmem | rfl
      · exact h.dims e' hmem
      · exact h.dims e' (List.mem_of_getElem? hb)
    have hnodup : ((Loaded.swap R i (R.length - 1)).dropLast.map Entry.id).Nodup := by
      have hall := (hperm.map Entry.id).nodup_iff.mp h.nodup
      rw [List.map_cons, List.nodup_cons] at hall
      exact hall.2
    have hdims' : ∀ e' ∈ (Loaded.swap R i (R.length - 1)).dropLast, e'.vector.length = l.dim := by
      intro e' he'
      exact h.dims e' (hperm.mem_iff.mpr (List.mem_cons_of_mem _ he'))
    have hsum : l.overhead - l.overheadAt i =
        ((Loaded.swap R i (R.length - 1)).dropLast.map Entry.overhead).sum := by
      have hall := (hperm.map Entry.overhead).sum_eq
      rw [List.map_cons, List.sum_cons] at hall
      rw [h.overheadAt he, h.overhead]
      omega
    have hmap : ∀ {β : Type} (f : Entry F → β), (Loaded.swap (R.map f) i (R.length - 1)).dropLast =
        (Loaded.swap R i (R.length - 1)).dropLast.map f := by
      intro β f
      rw [swap_map, List.map_dropLast]
    by_cases hlast : i = R.length - 1
    · -- the last row itself
      have hswap : Loaded.swap R i (R.length - 1) = R := by rw [← hlast, swap_self]
      rw [hswap] at hnodup hdims' hsum
      simp only [hlength, ne_eq, hlast, not_true_eq_false, if_false]
      rw [hlast] at hsum hswap
      rw [hswap]
      constructor
      · simp only [h.ids, List.map_dropLast]
      · simp only [h.data]
        rw [take_flatMap h.dims, List.dropLast_eq_take]
      · simp only [h.metadata, List.map_dropLast]
      · simp only [h.meta_lens, List.map_dropLast]
      · intro id' j
        have heq : b = e := by
          rw [hlast, hb, Option.some.injEq] at he
          exact he
        have hset : (R.set i b).take (R.length - 1) = R.dropLast := by
          rw [← htake, hlast, hswap]
        have hremoved := getElem?_removed h.nodup he hb id' j
        rw [hset, if_neg (fun hne => hne.2 hlast)] at hremoved
        rw [hremoved, Table.getElem?_erase_ite, ← heid, ← h.index]
        split_ifs with hid'
        · simp [hid']
        · simp [hid']
      · exact hnodup
      · exact hdims'
      · exact hsum
    · simp only [hlength, ne_eq, hlast, not_false_eq_true, if_true]
      have hmoved : (Loaded.swap l.ids i (R.length - 1)).getD i "" = b.id := by
        rw [h.ids, swap_map, List.getD_eq_getElem?_getD, List.getElem?_map, swap_eq he hb,
          List.getElem?_set_ne (Ne.symm hlast), List.getElem?_set_self hi]
        rfl
      constructor
      · simp only [h.ids, hmap]
      · simp only [lastRow_eq h hb]
        rw [h.data, copyRow_flatMap h.dims hi b, take_flatMap hdims, htake]
      · simp only [h.metadata, hmap]
      · simp only [h.meta_lens, hmap]
      · intro id' j
        rw [htake, getElem?_removed h.nodup he hb id' j]
        simp only [hmoved, Table.getElem?_insert_ite, Table.getElem?_erase_ite]
        rw [← heid]
        by_cases hbid : b.id = id'
        · rw [if_pos hbid, if_pos ⟨hbid, hlast⟩, Option.some.injEq, eq_comm]
        · have hnot : ¬ (b.id = id' ∧ i ≠ R.length - 1) := fun hand => hbid hand.1
          rw [if_neg hbid, if_neg hnot, ← h.index]
          split_ifs with hid'
          · simp [hid']
          · simp [hid']
      · exact hnodup
      · exact hdims'
      · exact hsum

theorem push_dim {vector : List F} {meta_json : String} :
    (l.push serde id vector meta_json).dim = l.dim := by
  unfold Loaded.push
  cases l.index[id]? with
  | none => rfl
  | some i => rfl

theorem remove_dim : (l.remove id).1.dim = l.dim := by
  unfold Loaded.remove
  cases l.index[id]? with
  | none => rfl
  | some i =>
    dsimp only
    split_ifs with hlast
    · rfl
    · rfl

end

/-! ## Runs -/

/-- An operation on a copy. -/
inductive Loaded.Op (F : Type) where
  | push (id : String) (vector : List F) (meta_json : String)
  | remove (id : String)

namespace Loaded

def apply (serde : Serde) (l : Loaded F) : Op F → Loaded F
  | .push id vector meta_json => l.push serde id vector meta_json
  | .remove id => (l.remove id).1

def run (serde : Serde) (l : Loaded F) (ops : List (Op F)) : Loaded F :=
  ops.foldl (apply serde) l

/-- The vectors that are pushed have as many numbers as the collection has dimensions. -/
def Op.Fits (dim : Nat) : Op F → Prop
  | .push _ vector _ => vector.length = dim
  | .remove _ => True

/-- What an id stands for after one more operation: the vector and the metadata pushed last, unless it was
    removed since. -/
def Op.pushed (id : String) (before : Option (List F × String)) : Op F → Option (List F × String)
  | .push id' vector meta_json => if id' = id then some (vector, meta_json) else before
  | .remove id' => if id' = id then none else before

def pushed (ops : List (Op F)) (id : String) : Option (List F × String) :=
  ops.foldl (Op.pushed id) none

/-- A copy is a map from ids to what was pushed last for them, kept in rows. -/
structure FaithfulMap (serde : Serde) (dim : Nat) (ops : List (Op F)) (l : Loaded F) : Prop where
  nodup : l.ids.Nodup
  index : ∀ (id : String) (i : Nat), l.index[id]? = some i ↔ l.ids[i]? = some id
  ids : ∀ id : String, id ∈ l.ids ↔ pushed ops id ≠ none
  data : l.data.length = dim * l.ids.length
  metadata : l.metadata.length = l.ids.length
  meta_lens : l.meta_lens.length = l.ids.length
  row : ∀ (i : Nat) (id : String), l.ids[i]? = some id → ∃ vector meta_json, pushed ops id = some (vector, meta_json) ∧
    (l.data.drop (i * dim)).take dim = vector ∧ l.metadata[i]? = some (parse_meta serde meta_json) ∧
    l.meta_lens[i]? = some meta_json.utf8ByteSize
  overhead : l.overhead =
    (List.zipWith (fun id len => row_overhead id.utf8ByteSize len) l.ids l.meta_lens).sum

end Loaded

section

variable {serde : Serde} {dim : Nat} {l : Loaded F} {R : List (Entry F)} {ops : List (Loaded.Op F)}

/-- The rows are what was pushed last for their ids. -/
def Latest (serde : Serde) (ops : List (Loaded.Op F)) (R : List (Entry F)) : Prop :=
  ∀ e, e ∈ R ↔ ∃ vector meta_json, Loaded.pushed ops e.id = some (vector, meta_json) ∧
    e = .ofRow serde e.id vector meta_json

theorem pushed_concat (ops : List (Loaded.Op F)) (op : Loaded.Op F) (id : String) :
    Loaded.pushed (ops ++ [op]) id = op.pushed id (Loaded.pushed ops id) := by
  unfold Loaded.pushed
  rw [List.foldl_append]
  rfl

theorem latest_push (h : Latest serde ops R) (hnodup : (R.map Entry.id).Nodup) (id : String) (vector : List F)
    (meta_json : String) :
    Latest serde (ops ++ [.push id vector meta_json]) (Entry.push R (.ofRow serde id vector meta_json)) := by
  intro e
  rw [mem_push hnodup, h e, pushed_concat]
  show _ ↔ ∃ vector' meta_json', (if id = e.id then some (vector, meta_json) else Loaded.pushed ops e.id) = _ ∧ _
  by_cases hid : id = e.id
  · rw [if_pos hid]
    constructor
    · rintro (rfl | ⟨-, hne⟩)
      · exact ⟨vector, meta_json, rfl, rfl⟩
      · exact absurd hid.symm hne
    · rintro ⟨vector', meta_json', heq, he⟩
      obtain ⟨rfl, rfl⟩ := Prod.mk.inj (Option.some.inj heq)
      rw [← hid] at he
      exact .inl he
  · rw [if_neg hid]
    constructor
    · rintro (rfl | ⟨hmem, -⟩)
      · exact absurd rfl hid
      · exact hmem
    · intro hmem
      exact .inr ⟨hmem, fun heq => hid heq.symm⟩

theorem latest_remove (h : Latest serde ops R) (hnodup : (R.map Entry.id).Nodup) (id : String) :
    Latest serde (ops ++ [.remove id]) (Entry.remove R id) := by
  intro e
  rw [mem_remove hnodup, h e, pushed_concat]
  show _ ↔ ∃ vector meta_json, (if id = e.id then none else Loaded.pushed ops e.id) = _ ∧ _
  by_cases hid : id = e.id
  · rw [if_pos hid]
    constructor
    · rintro ⟨-, hne⟩
      exact absurd hid.symm hne
    · rintro ⟨vector, meta_json, heq, -⟩
      cases heq
  · rw [if_neg hid]
    exact and_iff_left fun heq => hid heq.symm

/-- What holds of a copy after some operations on a new one. -/
theorem holds_run (serde : Serde) (dim : Nat) (ops : List (Loaded.Op F)) (hfits : ∀ op ∈ ops, op.Fits dim) :
    ((Loaded.new dim).run serde ops).dim = dim ∧
      ∃ R, ((Loaded.new dim).run serde ops).Holds R ∧ Latest serde ops R := by
  induction ops using List.reverseRecOn with
  | nil =>
    refine ⟨rfl, [], holds_new dim, fun e => ?_⟩
    constructor
    · intro he
      cases he
    · rintro ⟨vector, meta_json, heq, -⟩
      cases heq
  | append_singleton ops op ih =>
    obtain ⟨hdim, R, hholds, hlatest⟩ := ih fun op hop => hfits op (List.mem_append_left _ hop)
    have hop := hfits op (by simp)
    have hrun : (Loaded.new dim).run serde (ops ++ [op]) =
        ((Loaded.new dim).run serde ops).apply serde op := by
      unfold Loaded.run
      rw [List.foldl_append]
      rfl
    rw [hrun]
    cases op with
    | push id vector meta_json =>
      refine ⟨push_dim.trans hdim, _, holds_push hholds ?_, latest_push hlatest hholds.nodup id vector meta_json⟩
      exact (show vector.length = dim from hop).trans hdim.symm
    | remove id =>
      exact ⟨remove_dim.trans hdim, _, holds_remove hholds, latest_remove hlatest hholds.nodup id⟩

theorem faithfulMap_of_holds (hdim : l.dim = dim) (hholds : l.Holds R) (hlatest : Latest serde ops R) :
    l.FaithfulMap serde dim ops := by
  have hlength : l.ids.length = R.length := by rw [hholds.ids, List.length_map]
  have hdims : ∀ e ∈ R, e.vector.length = dim := fun e he => (hholds.dims e he).trans hdim
  constructor
  · rw [hholds.ids]
    exact hholds.nodup
  · intro id i
    rw [hholds.index, hholds.ids, List.getElem?_map]
  · intro id
    rw [hholds.ids, List.mem_map]
    constructor
    · rintro ⟨e, he, rfl⟩
      obtain ⟨vector, meta_json, hpushed, -⟩ := (hlatest e).mp he
      simp [hpushed]
    · intro hne
      obtain ⟨⟨vector, meta_json⟩, hpushed⟩ := Option.ne_none_iff_exists'.mp hne
      exact ⟨.ofRow serde id vector meta_json, (hlatest _).mpr ⟨vector, meta_json, hpushed, rfl⟩, rfl⟩
  · have hsum : (R.map fun e => e.vector.length) = R.map fun _ => dim :=
      List.map_congr_left fun e he => hdims e he
    rw [hholds.data, List.length_flatMap, hsum, List.map_const', List.sum_replicate_nat, hlength,
      Nat.mul_comm]
  · rw [hholds.metadata, List.length_map, hlength]
  · rw [hholds.meta_lens, List.length_map, hlength]
  · intro i id hid
    rw [hholds.ids, List.getElem?_map] at hid
    obtain ⟨e, he, rfl⟩ := Option.map_eq_some_iff.mp hid
    obtain ⟨vector, meta_json, hpushed, hrow⟩ := (hlatest e).mp (List.mem_of_getElem? he)
    obtain ⟨hi, hget⟩ := List.getElem?_eq_some_iff.mp he
    refine ⟨vector, meta_json, hpushed, ?_, ?_, ?_⟩
    · have hdrop : R.drop i = e :: R.drop (i + 1) := by rw [List.drop_eq_getElem_cons hi, hget]
      have hvector : e.vector = vector := by rw [hrow]; rfl
      rw [hholds.data, drop_flatMap hdims, hdrop, List.flatMap_cons,
        List.take_left' (hdims e (List.mem_of_getElem? he)), hvector]
    · rw [hholds.metadata, List.getElem?_map, he, hrow]
      rfl
    · rw [hholds.meta_lens, List.getElem?_map, he, hrow]
      rfl
  · rw [hholds.overhead, hholds.ids, hholds.meta_lens, List.zipWith_map, List.zipWith_self]
    rfl

/-- After any operations, a copy is the map of what was pushed. -/
theorem loaded_faithful (serde : Serde) (dim : Nat) (ops : List (Loaded.Op F))
    (hfits : ∀ op ∈ ops, op.Fits dim) : ((Loaded.new dim).run serde ops).FaithfulMap serde dim ops := by
  obtain ⟨hdim, R, hholds, hlatest⟩ := holds_run serde dim ops hfits
  exact faithfulMap_of_holds hdim hholds hlatest

/-- Three rows of which the first is overwritten and removed, and then the one that took its place. -/
theorem loaded_faithful_swaps :
    ((Loaded.new 2).run .compact [.push "a" [1, 2] "\x7b\x7d", .push "b" [3, 4] "null", .push "c" [5, 6] "",
        .push "a" [7, 8] "", .remove "a", .remove "c"] : Loaded Nat).FaithfulMap .compact 2
      [.push "a" [1, 2] "\x7b\x7d", .push "b" [3, 4] "null", .push "c" [5, 6] "", .push "a" [7, 8] "",
        .remove "a", .remove "c"] :=
  loaded_faithful .compact 2 _ (by simp [Loaded.Op.Fits])

end

end VectorDb
