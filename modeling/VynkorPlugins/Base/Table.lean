import Mathlib.Data.String.Basic
import Mathlib.Tactic.Linarith

/-!
# Tables

A table of a relational store: rows under a primary key. Two tables with the same rows are equal,
and `toList` gives the rows in the order of their keys.
-/

/-- The rows of a table under their primary keys. -/
abbrev Table (κ ρ : Type) [Ord κ] := Std.ExtTreeMap κ ρ compare

namespace Table

variable {κ ρ : Type} [Ord κ]

section

variable [Std.TransOrd κ]

/-- `SELECT … WHERE p ORDER BY` the primary key. -/
def selectWhere (t : Table κ ρ) (p : κ → ρ → Bool) : List (κ × ρ) :=
  t.toList.filter fun r => p r.1 r.2

/-- The table without the rows of some keys. -/
def eraseAll (t : Table κ ρ) (ks : List κ) : Table κ ρ :=
  ks.foldl (fun t k => t.erase k) t

/-- `DELETE … WHERE p`. -/
def deleteWhere (t : Table κ ρ) (p : κ → ρ → Bool) : Table κ ρ :=
  t.eraseAll ((t.selectWhere p).map Prod.fst)

end

variable [Std.TransOrd κ] [Std.LawfulEqOrd κ]

theorem getElem?_insert_ite [DecidableEq κ] (t : Table κ ρ) (k k' : κ) (r : ρ) :
    (t.insert k r)[k']? = if k = k' then some r else t[k']? := by
  rw [Std.ExtTreeMap.getElem?_insert]
  simp only [Std.LawfulEqCmp.compare_eq_iff_eq]

theorem getElem?_erase_ite [DecidableEq κ] (t : Table κ ρ) (k k' : κ) :
    (t.erase k)[k']? = if k = k' then none else t[k']? := by
  rw [Std.ExtTreeMap.getElem?_erase]
  simp only [Std.LawfulEqCmp.compare_eq_iff_eq]

theorem modify_eq_insert {t : Table κ ρ} {k : κ} {r : ρ} (f : ρ → ρ) (h : t[k]? = some r) :
    t.modify k f = t.insert k (f r) := by
  refine Std.ExtTreeMap.ext_getElem? fun k' => ?_
  rw [Std.ExtTreeMap.getElem?_modify, Std.ExtTreeMap.getElem?_insert]
  split
  · rw [h, Option.map_some]
  · rfl

theorem mem_selectWhere {t : Table κ ρ} {p : κ → ρ → Bool} {k : κ} {r : ρ} :
    (k, r) ∈ t.selectWhere p ↔ t[k]? = some r ∧ p k r := by
  simp [selectWhere, List.mem_filter, Std.ExtTreeMap.mem_toList_iff_getElem?_eq_some]

/-- No two selected rows have the same key. -/
theorem nodup_selectWhere (t : Table κ ρ) (p : κ → ρ → Bool) :
    ((t.selectWhere p).map Prod.fst).Nodup := by
  rw [List.Nodup, List.pairwise_map]
  refine (t.ordered_keys_toList.filter _).imp fun {a b} hab => ?_
  rintro heq
  rw [heq] at hab
  simp at hab

theorem getElem?_eraseAll [DecidableEq κ] (t : Table κ ρ) (ks : List κ) (k : κ) :
    (t.eraseAll ks)[k]? = if k ∈ ks then none else t[k]? := by
  induction ks generalizing t with
  | nil => simp [eraseAll]
  | cons k' ks ih =>
    change (eraseAll (t.erase k') ks)[k]? = _
    rw [ih, Std.ExtTreeMap.getElem?_erase]
    by_cases hk : k' = k
    · simp [hk]
    · simp [hk, Ne.symm hk]

theorem getElem?_deleteWhere (t : Table κ ρ) (p : κ → ρ → Bool) (k : κ) :
    (t.deleteWhere p)[k]? = t[k]?.filter fun r => !p k r := by
  classical
  rw [deleteWhere, getElem?_eraseAll]
  have hmem : k ∈ (t.selectWhere p).map Prod.fst ↔ ∃ r, t[k]? = some r ∧ p k r := by
    simp [mem_selectWhere]
  cases hk : t[k]? with
  | none => simp
  | some r =>
    rw [hk] at hmem
    cases hp : p k r with
    | true => simp [hmem.mpr ⟨r, rfl, hp⟩, Option.filter, hp]
    | false => simp [mt hmem.mp (by simp [hp]), Option.filter, hp]

/-- The rows of a table are in the strict order of their keys, so they are determined by which rows
    there are. -/
theorem toList_eq_of_mem_iff {t : Table κ ρ} {rows : List (κ × ρ)}
    (hrows : rows.Pairwise fun a b => compare a.1 b.1 = .lt)
    (h : ∀ k r, (k, r) ∈ rows ↔ t[k]? = some r) : t.toList = rows := by
  have hirrefl : ∀ a b : κ × ρ, compare a.1 b.1 = .lt → a ≠ b := by
    rintro a b hab rfl
    simp at hab
  have hperm : t.toList.Perm rows := by
    refine (List.perm_ext_iff_of_nodup ?_ ?_).mpr ?_
    · exact t.ordered_keys_toList.imp (hirrefl _ _)
    · exact hrows.imp (hirrefl _ _)
    · rintro ⟨k, r⟩
      rw [Std.ExtTreeMap.mem_toList_iff_getElem?_eq_some, h]
  refine hperm.eq_of_pairwise (fun a b _ _ hab hba => ?_) t.ordered_keys_toList hrows
  have hba' := Std.OrientedCmp.gt_of_lt hab
  rw [hba] at hba'
  cases hba'

/-- The rows are one of them and those that its deletion leaves. -/
theorem toList_perm_erase {t : Table κ ρ} {k : κ} {r : ρ} (h : t[k]? = some r) :
    t.toList.Perm ((k, r) :: (t.erase k).toList) := by
  have hnodup : ∀ t : Table κ ρ, t.toList.Nodup := by
    intro t
    refine t.ordered_keys_toList.imp fun {a b} hab => ?_
    rintro rfl
    simp at hab
  refine (List.perm_ext_iff_of_nodup (hnodup t) (List.nodup_cons.mpr ⟨?_, hnodup _⟩)).mpr ?_
  · rw [Std.ExtTreeMap.mem_toList_iff_getElem?_eq_some, Std.ExtTreeMap.getElem?_erase_self]
    rintro ⟨⟩
  · rintro ⟨k', r'⟩
    rw [List.mem_cons, Std.ExtTreeMap.mem_toList_iff_getElem?_eq_some,
      Std.ExtTreeMap.mem_toList_iff_getElem?_eq_some, Std.ExtTreeMap.getElem?_erase, Prod.mk.injEq]
    by_cases hk : k = k'
    · subst hk
      simp [h, eq_comm]
    · simp [hk, Ne.symm hk]

/-- A row with a new largest key comes last. -/
theorem toList_insert_of_lt {t : Table κ ρ} {k : κ} (r : ρ)
    (h : ∀ k' r', t[k']? = some r' → compare k' k = .lt) :
    (t.insert k r).toList = t.toList ++ [(k, r)] := by
  refine toList_eq_of_mem_iff ?_ fun k' r' => ?_
  · refine List.pairwise_append.mpr ⟨t.ordered_keys_toList, by simp, ?_⟩
    rintro ⟨k', r'⟩ hk b hb
    rw [Std.ExtTreeMap.mem_toList_iff_getElem?_eq_some] at hk
    rw [List.mem_singleton.mp hb]
    exact h k' r' hk
  · rw [Std.ExtTreeMap.getElem?_insert, List.mem_append,
      Std.ExtTreeMap.mem_toList_iff_getElem?_eq_some, List.mem_singleton, Prod.mk.injEq]
    by_cases hk : k = k'
    · subst hk
      have hnone : t[k]? = none := by
        cases hr : t[k]? with
        | none => rfl
        | some r' => simpa using h k r' hr
      simp [hnone, eq_comm]
    · simp [hk, Ne.symm hk]

theorem toList_deleteWhere (t : Table κ ρ) (p : κ → ρ → Bool) :
    (t.deleteWhere p).toList = t.toList.filter fun r => !p r.1 r.2 := by
  refine toList_eq_of_mem_iff (t.ordered_keys_toList.filter _) fun k r => ?_
  rw [List.mem_filter, Std.ExtTreeMap.mem_toList_iff_getElem?_eq_some, getElem?_deleteWhere]
  cases t[k]? with
  | none => simp
  | some r' =>
    simp only [Option.some.injEq, Option.filter]
    constructor
    · rintro ⟨rfl, hp⟩
      exact if_pos hp
    · intro h
      split at h
      · rename_i hp
        obtain rfl := Option.some.inj h
        exact ⟨rfl, hp⟩
      · cases h

/-! ## Row numbers -/

/-- The number that a table with an integer primary key gives to its next row. -/
def nextRowid (t : Table Nat ρ) : Nat :=
  t.toList.foldl (fun n r => max n (r.1 + 1)) 1

theorem lt_nextRowid {t : Table Nat ρ} {k : Nat} {r : ρ} (h : t[k]? = some r) : k < t.nextRowid := by
  have hmax : ∀ (rows : List (Nat × ρ)) (n : Nat), n ≤ rows.foldl (fun n r => max n (r.1 + 1)) n ∧
      ∀ row ∈ rows, row.1 < rows.foldl (fun n r => max n (r.1 + 1)) n := by
    intro rows
    induction rows with
    | nil => simp
    | cons row rows ih =>
      intro n
      obtain ⟨hle, hlt⟩ := ih (max n (row.1 + 1))
      refine ⟨(le_max_left _ _).trans hle, fun row' hrow' => ?_⟩
      rcases List.mem_cons.mp hrow' with rfl | hrow'
      · exact Nat.lt_of_lt_of_le (Nat.lt_succ_self _) ((le_max_right _ _).trans hle)
      · exact hlt row' hrow'
  exact (hmax t.toList 1).2 (k, r) (Std.ExtTreeMap.mem_toList_iff_getElem?_eq_some.mpr h)

theorem nextRowid_pos (t : Table Nat ρ) : 0 < t.nextRowid := by
  have hmax : ∀ (rows : List (Nat × ρ)) (n : Nat), 0 < n →
      0 < rows.foldl (fun n r => max n (r.1 + 1)) n := by
    intro rows
    induction rows with
    | nil => exact fun n hn => hn
    | cons row rows ih => exact fun n hn => ih _ (lt_max_of_lt_left hn)
  exact hmax t.toList 1 Nat.one_pos

end Table

/-!
## Patterns of LIKE

The operator `LIKE … ESCAPE` of SQLite as it is documented: `%` stands for any characters, `_` for
one, what follows the escape character for itself, and the letters of ASCII have no case.
-/

/-- The names that begin with a text, in their order. -/
structure Listing (stored : String → Prop) (pre : String) (names : List String) : Prop where
  sorted : names.Pairwise (· < ·)
  mem : ∀ name, name ∈ names ↔ stored name ∧ pre.toList <+: name.toList

namespace Like

/-- What one place of a pattern stands for. -/
inductive Token where
  | any
  | one
  | lit (c : Char)
deriving DecidableEq

def Token.of (c : Char) : Token :=
  if c = '%' then .any else if c = '_' then .one else .lit c

/-- The places of a pattern. There are none if nothing follows its last escape character. -/
def tokens (esc : Char) : List Char → Option (List Token)
  | [] => some []
  | [c] => if c = esc then none else some [.of c]
  | c :: d :: cs =>
    if c = esc then (tokens esc cs).map (.lit d :: ·)
    else (tokens esc (d :: cs)).map (.of c :: ·)

/-- One character, up to the case of a letter. -/
def same (c d : Char) : Bool :=
  c.toLower = d.toLower

def covers : List Token → List Char → Bool
  | [], s => s.isEmpty
  | .any :: ts, s => s.tails.any (covers ts)
  | .one :: _, [] => false
  | .one :: ts, _ :: s => covers ts s
  | .lit _ :: _, [] => false
  | .lit c :: ts, d :: s => same c d && covers ts s

/-- `s LIKE pattern ESCAPE esc` -/
def like (esc : Char) (s pattern : List Char) : Bool :=
  (tokens esc pattern).any fun ts => covers ts s

end Like
