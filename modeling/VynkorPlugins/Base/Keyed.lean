import VynkorPlugins.Base.Table

/-!
# Tables with a unique key

A table whose rows have numbers, and beside them a key that no two rows share: a written row takes the
number of the one with its key or the next number of the table.
-/

namespace Table

variable {ρ κ : Type} {key : ρ → κ} {t : Table Nat ρ} {r r' : ρ} {k : κ} {n : Nat}

/-- No two rows have the same key. -/
def Unique (key : ρ → κ) (t : Table Nat ρ) : Prop :=
  ∀ (n n' : Nat) (r r' : ρ), t[n]? = some r → t[n']? = some r' → key r = key r' → n = n'

/-- There is a row. -/
def Has (t : Table Nat ρ) (r : ρ) : Prop :=
  ∃ n : Nat, t[n]? = some r

theorem unique_empty (key : ρ → κ) : Unique key ∅ := by
  intro n n' r r' h
  simp at h

/-! ## Deleting rows -/

theorem has_deleteWhere {p : Nat → ρ → Bool} :
    (t.deleteWhere p).Has r ↔ ∃ n : Nat, t[n]? = some r ∧ p n r = false := by
  unfold Has
  refine exists_congr fun n => ?_
  rw [getElem?_deleteWhere, Option.filter_eq_some_iff]
  simp

theorem Unique.deleteWhere (h : Unique key t) (p : Nat → ρ → Bool) : Unique key (t.deleteWhere p) := by
  intro n n' r r' hn hn'
  rw [getElem?_deleteWhere, Option.filter_eq_some_iff] at hn hn'
  exact h n n' r r' hn.1 hn'.1

/-! ## Writing a row -/

variable [DecidableEq κ]

/-- The row of a key and its number. -/
def findKey (key : ρ → κ) (t : Table Nat ρ) (k : κ) : Option (Nat × ρ) :=
  t.toList.find? fun r => key r.2 = k

/-- `INSERT … ON CONFLICT DO UPDATE`. -/
def upsert (key : ρ → κ) (t : Table Nat ρ) (r : ρ) : Table Nat ρ :=
  match t.findKey key (key r) with
  | some old => t.insert old.1 r
  | none => t.insert t.nextRowid r

theorem findKey_some (h : t.findKey key k = some (n, r)) : t[n]? = some r ∧ key r = k := by
  have hmem := List.mem_of_find?_eq_some h
  rw [Std.ExtTreeMap.mem_toList_iff_getElem?_eq_some] at hmem
  exact ⟨hmem, by simpa using List.find?_some h⟩

theorem findKey_none (h : t.findKey key k = none) (hr : t.Has r) : key r ≠ k := by
  obtain ⟨n, hn⟩ := hr
  have hall := List.find?_eq_none.mp h (n, r) (Std.ExtTreeMap.mem_toList_iff_getElem?_eq_some.mpr hn)
  simpa using hall

theorem findKey_eq_some (h : Unique key t) : t.findKey key k = some (n, r) ↔ t[n]? = some r ∧ key r = k := by
  refine ⟨findKey_some, ?_⟩
  rintro ⟨hn, hk⟩
  cases hfind : t.findKey key k with
  | none => exact (findKey_none hfind ⟨n, hn⟩ hk).elim
  | some found =>
    obtain ⟨n', found⟩ := found
    obtain ⟨hn', hk'⟩ := findKey_some hfind
    obtain rfl := h n n' r found hn hn' (hk.trans hk'.symm)
    obtain rfl := Option.some.inj (hn.symm.trans hn')
    rfl

/-- The number under which a row is written is that of the row with its key. -/
theorem upsert_eq (h : Unique key t) (r : ρ) :
    ∃ n : Nat, t.upsert key r = t.insert n r ∧
      ∀ (n' : Nat) (r' : ρ), t[n']? = some r' → (key r' = key r ↔ n' = n) := by
  unfold upsert
  cases hfind : t.findKey key (key r) with
  | some old =>
    obtain ⟨m, old⟩ := old
    obtain ⟨hold, hkey⟩ := findKey_some hfind
    refine ⟨m, rfl, fun n' r' hn' => ?_⟩
    constructor
    · intro hk
      exact h n' m r' old hn' hold (hk.trans hkey.symm)
    · rintro rfl
      obtain rfl := Option.some.inj (hn'.symm.trans hold)
      exact hkey
  | none =>
    refine ⟨t.nextRowid, rfl, fun n' r' hn' => iff_of_false (findKey_none hfind ⟨n', hn'⟩) ?_⟩
    exact (lt_nextRowid hn').ne

theorem has_upsert (h : Unique key t) : (t.upsert key r).Has r' ↔ r' = r ∨ t.Has r' ∧ key r' ≠ key r := by
  obtain ⟨n, heq, hkey⟩ := upsert_eq h r
  rw [heq]
  constructor
  · rintro ⟨n', hn'⟩
    rw [getElem?_insert_ite] at hn'
    split_ifs at hn' with hnn
    · exact .inl (Option.some.inj hn').symm
    · exact .inr ⟨⟨n', hn'⟩, fun hk => hnn ((hkey n' r' hn').mp hk).symm⟩
  · rintro (rfl | ⟨⟨n', hn'⟩, hk⟩)
    · exact ⟨n, by rw [getElem?_insert_ite, if_pos rfl]⟩
    · refine ⟨n', ?_⟩
      rw [getElem?_insert_ite, if_neg, hn']
      rintro rfl
      exact hk ((hkey n r' hn').mpr rfl)

theorem Unique.upsert (h : Unique key t) (r : ρ) : Unique key (t.upsert key r) := by
  obtain ⟨n, heq, hkey⟩ := upsert_eq h r
  rw [heq]
  intro n₁ n₂ r₁ r₂ h₁ h₂ hk
  rw [getElem?_insert_ite] at h₁ h₂
  split_ifs at h₁ h₂ with hn₁ hn₂ hn₂
  · exact hn₁.symm.trans hn₂
  · obtain rfl := Option.some.inj h₁
    exact hn₁.symm.trans ((hkey n₂ r₂ h₂).mp hk.symm).symm
  · obtain rfl := Option.some.inj h₂
    exact ((hkey n₁ r₁ h₁).mp hk).trans hn₂
  · exact h n₁ n₂ r₁ r₂ h₁ h₂ hk

/-- A row with another key keeps its number. -/
theorem getElem?_upsert_of_ne (h : Unique key t) {r : ρ} (hne : key r' ≠ key r) (n : Nat) :
    (t.upsert key r)[n]? = some r' ↔ t[n]? = some r' := by
  obtain ⟨m, heq, hkey⟩ := upsert_eq h r
  rw [heq, getElem?_insert_ite]
  split_ifs with hmn
  · subst hmn
    refine iff_of_false ?_ fun hm => hne ((hkey m r' hm).mpr rfl)
    rintro hr
    exact hne (congrArg key (Option.some.inj hr).symm)
  · rfl

theorem upsert_pos (h : ∀ (n : Nat) (r : ρ), t[n]? = some r → 0 < n) (hn : (t.upsert key r)[n]? = some r') :
    0 < n := by
  unfold upsert at hn
  split at hn
  · rename_i old hfind
    obtain ⟨m, old⟩ := old
    rw [getElem?_insert_ite] at hn
    split_ifs at hn with heq
    · rw [← heq]
      exact h _ _ (findKey_some hfind).1
    · exact h _ _ hn
  · rw [getElem?_insert_ite] at hn
    split_ifs at hn with heq
    · rw [← heq]
      exact nextRowid_pos t
    · exact h _ _ hn

end Table
