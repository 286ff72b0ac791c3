import Mathlib
import VynkorPlugins.Base.Pages
import VynkorPlugins.VectorDb.Migrate

/-!
# The migration of a file

At each point at which the process may stop, the database has its old rows, or the migrated ones beside a
backup. A backup that was there before is trusted for its number of rows alone.
-/

namespace VectorDb.Migrate

open Async Transition

variable {from_str : String → Except String (List F32)} {t t' : Vectors} {row row' : Row}
  {c c' : Copy} {w w' : World}

/-! ## The codec -/

theorem from_to_le_bytes (x : F32) :
    from_le_bytes (UInt8.ofNat x.toNat) (UInt8.ofNat (x.toNat / 2 ^ 8)) (UInt8.ofNat (x.toNat / 2 ^ 16))
      (UInt8.ofNat (x.toNat / 2 ^ 24)) = x := by
  have hlt := x.toNat_lt
  rw [from_le_bytes, ← UInt32.toNat_inj]
  simp only [UInt8.toNat_ofNat', UInt32.toNat_ofNat']
  omega

theorem chunks_encode (v : List F32) : chunks (encode v) = v := by
  induction v with
  | nil => rfl
  | cons x v ih =>
    show from_le_bytes _ _ _ _ :: chunks (encode v) = x :: v
    rw [ih, from_to_le_bytes]

theorem length_encode (v : List F32) : (encode v).length = 4 * v.length := by
  induction v with
  | nil => rfl
  | cons x v ih =>
    show (encode v).length + 4 = 4 * (v.length + 1)
    omega

theorem decode_encode (v : List F32) : decode (encode v) = .ok v := by
  have hlength := length_encode v
  rw [decode, if_neg (by omega), chunks_encode]

/-! ## The copy of the rows -/

theorem sorted_toList (t : Vectors) : t.toList.Pairwise fun a b => a.1 < b.1 :=
  t.ordered_keys_toList.imp fun h => compare_lt_iff_lt.mp h

/-- What comes after the last row of a page is behind the page. -/
theorem filter_after_page {last_rowid : Int} {row : Int × Row}
    (h : (page t last_rowid).getLast? = some row) :
    t.toList.filter (fun r => row.1 < r.1) = (t.toList.filter fun r => last_rowid < r.1).drop 1000 := by
  have hsorted := (sorted_toList t).filter fun r => last_rowid < r.1
  have hasymm : ∀ a b : Int × Row, a.1 < b.1 → ¬ b.1 < a.1 := fun a b hab => not_lt.mpr hab.le
  have hrow : last_rowid < row.1 := by
    have hmem := List.mem_of_mem_take (List.mem_of_getLast? h)
    simpa using (List.mem_filter.mp hmem).2
  refine Pages.eq_of_mem_iff hasymm ((sorted_toList t).filter _) (hsorted.drop) fun b => ?_
  rw [Pages.mem_drop_iff hasymm hsorted h, List.mem_filter, List.mem_filter]
  constructor
  · rintro ⟨hb, hlt⟩
    have hlt' : row.1 < b.1 := by simpa using hlt
    exact ⟨⟨hb, by simpa using hrow.trans hlt'⟩, hlt'⟩
  · rintro ⟨⟨hb, -⟩, hlt⟩
    exact ⟨hb, by simpa using hlt⟩

/-- The pages are all of the rows after a number. -/
theorem copy_rows_eq {fuel : Nat} {last_rowid : Int}
    (hfuel : (t.toList.filter fun r => last_rowid < r.1).length < fuel) (c : Copy) :
    copy_rows from_str t fuel last_rowid c =
      (t.toList.filter fun r => last_rowid < r.1).foldlM (fun c r => copy_row from_str c r.2) c := by
  induction fuel generalizing last_rowid c with
  | zero => exact absurd hfuel (Nat.not_lt_zero _)
  | succ fuel ih =>
    have hsplit := List.take_append_drop 1000 (t.toList.filter fun r => last_rowid < r.1)
    change page t last_rowid ++ _ = _ at hsplit
    rw [copy_rows]
    cases hlast : (page t last_rowid).getLast? with
    | none =>
      have hpage := List.getLast?_eq_none_iff.mp hlast
      rw [page, List.take_eq_nil_iff] at hpage
      rw [hpage.resolve_left (by decide)]
      rfl
    | some row =>
      have hne : 0 < (page t last_rowid).length :=
        List.length_pos_of_ne_nil fun hnil => by rw [hnil] at hlast; cases hlast
      have hlength := congrArg List.length hsplit
      rw [List.length_append] at hlength
      dsimp only
      rw [← hsplit, List.foldlM_append, ← filter_after_page hlast]
      cases hpage : (page t last_rowid).foldlM (fun c r => copy_row from_str c r.2) c with
      | error e => rfl
      | ok c' =>
        dsimp only
        rw [ih (by rw [filter_after_page hlast]; omega)]
        rfl

/-! ## The rows of the new table -/

theorem lt_next_rowid {n : Int} (h : t[n]? = some row) : n < next_rowid t := by
  have hmem : (n, row) ∈ t.toList := Std.ExtTreeMap.mem_toList_iff_getElem?_eq_some.mpr h
  rw [next_rowid]
  cases hlast : t.toList.getLast? with
  | none =>
    rw [List.getLast?_eq_none_iff.mp hlast] at hmem
    cases hmem
  | some last =>
    obtain ⟨init, hinit⟩ := List.getLast?_eq_some_iff.mp hlast
    have hsorted := sorted_toList t
    rw [hinit] at hmem hsorted
    rw [List.pairwise_append] at hsorted
    rcases List.mem_append.mp hmem with hmem | hmem
    · exact (hsorted.2.2 _ hmem _ List.mem_cons_self).trans (Int.lt_succ _)
    · rw [List.mem_singleton] at hmem
      rw [← hmem]
      exact Int.lt_succ _

theorem rowsOf_insert_v1 (h : insert_v1 t row = .ok t') : rowsOf t' = rowsOf t ++ [row] := by
  unfold insert_v1 at h
  split_ifs at h
  obtain rfl := Except.ok.inj h
  rw [rowsOf, Table.toList_insert_of_lt, List.map_append]
  · rfl
  · exact fun n r hr => compare_lt_iff_lt.mpr (lt_next_rowid hr)

/-- A row that is copied is one that parses, in the new form. -/
theorem of_copy_row (h : copy_row from_str c row = .ok c') :
    (¬ Parses from_str row ∧ c'.vectors_v1 = c.vectors_v1) ∨
      ∃ row', Parses from_str row ∧ Converted from_str row row' ∧
        rowsOf c'.vectors_v1 = rowsOf c.vectors_v1 ++ [row'] := by
  unfold copy_row at h
  cases hcell : row.vector with
  | blob bytes =>
    rw [hcell] at h
    cases h
  | text json =>
    rw [hcell] at h
    dsimp only at h
    have hnot : (∀ v, from_str json = .ok v → v = []) → ¬ Parses from_str row := by
      rintro hempty ⟨json', v, hcell', hread, hne⟩
      obtain rfl := Cell.text.inj (hcell.symm.trans hcell')
      exact hne (hempty v hread)
    cases hread : from_str json with
    | error e =>
      rw [hread] at h
      obtain rfl := Except.ok.inj h
      exact .inl ⟨hnot fun v hv => (nomatch hread.symm.trans hv), rfl⟩
    | ok v =>
      rw [hread] at h
      cases v with
      | nil =>
        obtain rfl := Except.ok.inj h
        exact .inl ⟨hnot fun v hv => (Except.ok.inj (hread.symm.trans hv)).symm, rfl⟩
      | cons x v =>
        dsimp only at h
        cases hinsert : insert_v1 c.vectors_v1 { row with vector := .blob (encode (x :: v)) } with
        | error e =>
          rw [hinsert] at h
          cases h
        | ok vectors_v1 =>
          rw [hinsert] at h
          obtain rfl := Except.ok.inj h
          have hparses : Parses from_str row := ⟨json, x :: v, hcell, hread, List.cons_ne_nil _ _⟩
          refine .inr ⟨_, hparses, ⟨rfl, ?_⟩, rowsOf_insert_v1 hinsert⟩
          exact ⟨json, x :: v, _, hcell, hread, List.cons_ne_nil _ _, rfl, decode_encode _⟩

open Classical in
theorem of_copy_all {rows : List (Int × Row)}
    (h : rows.foldlM (fun c r => copy_row from_str c r.2) c = .ok c') :
    ∃ new, rowsOf c'.vectors_v1 = rowsOf c.vectors_v1 ++ new ∧
      List.Forall₂ (Converted from_str) ((rows.map Prod.snd).filter fun row => Parses from_str row) new := by
  induction rows generalizing c with
  | nil =>
    obtain rfl := Except.ok.inj h
    exact ⟨[], (List.append_nil _).symm, .nil⟩
  | cons r rows ih =>
    rw [List.foldlM_cons] at h
    cases hrow : copy_row from_str c r.2 with
    | error e =>
      rw [hrow] at h
      cases h
    | ok c₁ =>
      rw [hrow] at h
      obtain ⟨new, hnew, hall⟩ := ih h
      rcases of_copy_row hrow with ⟨hnot, hsame⟩ | ⟨row', hparses, hconv, hrows⟩
      · refine ⟨new, by rw [hnew, hsame], ?_⟩
        rw [List.map_cons, List.filter_cons_of_neg (by simpa using hnot)]
        exact hall
      · refine ⟨row' :: new, by rw [hnew, hrows, List.append_assoc, List.singleton_append], ?_⟩
        rw [List.map_cons, List.filter_cons_of_pos (by simpa using hparses)]
        exact .cons hconv hall

/-- What the transaction commits. -/
theorem of_migrate {db db' : Database} {counts : Nat × Nat}
    (h : (migrate from_str).exec db = .ok (counts, db')) (ht : db.vectors = some t)
    (hpositive : ∀ (n : Int) (row : Row), t[n]? = some row → Parses from_str row → 0 < n) :
    db'.user_version = SCHEMA_VERSION ∧ Migrated from_str t db' := by
  classical
  rw [migrate, Tx.exec_bind, Tx.exec_get] at h
  simp only [ht] at h
  have hfuel : (t.toList.filter fun r => 0 < r.1).length < t.size + 1 := by
    have hle := List.length_filter_le (fun r : Int × Row => 0 < r.1) t.toList
    rw [Std.ExtTreeMap.length_toList] at hle
    exact Nat.lt_succ_of_le hle
  rw [copy_rows_eq hfuel] at h
  cases hcopy : (t.toList.filter fun r => 0 < r.1).foldlM (fun c r => copy_row from_str c r.2) ⟨∅, 0, 0⟩ with
  | error e =>
    rw [hcopy] at h
    cases h
  | ok c =>
    rw [hcopy] at h
    simp only [Tx.exec_bind, Tx.exec_modify, Tx.exec_pure] at h
    obtain ⟨-, rfl⟩ := Prod.mk.inj (Except.ok.inj h)
    obtain ⟨new, hnew, hall⟩ := of_copy_all hcopy
    refine ⟨rfl, c.vectors_v1, rfl, ?_⟩
    have hrows : rowsOf c.vectors_v1 = new := by
      rw [hnew]
      rfl
    have hfilter : ((t.toList.filter fun r => 0 < r.1).map Prod.snd).filter (fun row => Parses from_str row) =
        (rowsOf t).filter fun row => Parses from_str row := by
      rw [rowsOf, List.filter_map, List.filter_map, List.filter_filter]
      congr 1
      refine List.filter_congr fun r hr => ?_
      rw [Std.ExtTreeMap.mem_toList_iff_getElem?_eq_some] at hr
      rw [Bool.and_eq_left_iff_imp]
      intro hparses
      have hparses' : Parses from_str r.2 := by simpa using hparses
      simpa using hpositive r.1 r.2 hr hparses'
    rw [hrows, ← hfilter]
    exact hall

/-! ## Between the effects -/

/-- The files at any point of the migration. -/
structure Inv (from_str : String → Except String (List F32)) (t : Vectors) (w : World) : Prop where
  version : w.db.user_version = 0 ∧ w.db.vectors = some t ∧ (passes w.bak t.size → Backed t w.bak) ∨
    w.db.user_version = SCHEMA_VERSION ∧ Migrated from_str t w.db ∧ Backed t w.bak

/-- The files are in order before each effect, and the answer of an effect tells what the files are. -/
def files (from_str : String → Except String (List F32)) (t : Vectors) :
    Protocol Eff Eff.Answer World where
  allowed w _ := Inv from_str t w
  next w e r w' := Handle from_str w e r w'

/-- How the process ends. -/
def Ends (from_str : String → Except String (List F32)) (t : Vectors) (w : World)
    (result : Except String MigrateReport) : Prop :=
  Inv from_str t w ∧ ∀ report, result = .ok report → w.db.user_version = SCHEMA_VERSION

theorem inv_of_obeys {m : Act (Except String MigrateReport)}
    (h : Obeys (files from_str t) (Ends from_str t) w m) : Inv from_str t w := by
  cases m with
  | done a => exact h.1
  | call e k => exact h.1

/-- An old file, beside a backup that is one of its rows, if it passes the check. -/
structure Old (t : Vectors) (w : World) : Prop where
  version : w.db.user_version = 0
  vectors : w.db.vectors = some t
  backup : passes w.bak t.size → Backed t w.bak

theorem Old.inv (h : Old t w) : Inv from_str t w :=
  ⟨.inl ⟨h.version, h.vectors, h.backup⟩⟩

theorem Old.failed (h : Old t w) (e : String) :
    Obeys (files from_str t) (Ends from_str t) w (.done (.error e)) :=
  ⟨h.inv, fun _ hok => (nomatch hok)⟩

/-- The temporary file is not looked at. -/
theorem Old.tmp (h : Old t w) (tmp : Option File) : Old t { w with tmp } :=
  ⟨h.version, h.vectors, h.backup⟩

section

variable (hpositive : ∀ (n : Int) (row : Row), t[n]? = some row → Parses from_str row → 0 < n)

include hpositive

theorem obeys_copy_into_v1 (h : Old t w) (hbacked : Backed t w.bak) (report : MigrateReport) :
    Obeys (files from_str t) (Ends from_str t) w (copy_into_v1 report) := by
  refine ⟨h.inv, ?_⟩
  rintro r w' ⟨fault, hw', hexec⟩
  rcases Db.transaction_cases hexec with ⟨hsame, e, rfl⟩ | ⟨counts, rfl, hbody⟩
  · have hw : w' = w := by rw [hw', hsame]
    rw [hw]
    exact h.failed e
  · obtain ⟨hversion, hmigrated⟩ := of_migrate hbody h.vectors hpositive
    have hbak : w'.bak = w.bak := by rw [hw']
    refine ⟨⟨.inr ⟨hversion, hmigrated, ?_⟩⟩, fun _ _ => hversion⟩
    rw [hbak]
    exact hbacked

theorem obeys_write_backup (h : Old t w) (report : MigrateReport) :
    Obeys (files from_str t) (Ends from_str t) w (write_backup >>= fun
      | .error e => .done (.error e)
      | .ok () => copy_into_v1 report) := by
  refine ⟨h.inv, fun _ w₁ hremove => ?_⟩
  have h₁ : Old t w₁ := by
    rcases hremove with rfl | rfl
    · exact h
    · exact h.tmp none
  refine ⟨h₁.inv, ?_⟩
  rintro r w₂ (⟨rfl, -, copy, hcopy, rfl⟩ | ⟨⟨e, rfl⟩, hw₂⟩)
  · refine ⟨(h₁.tmp _).inv, ?_⟩
    rintro r w₃ (⟨rfl, f, hf, rfl⟩ | ⟨⟨e, rfl⟩, rfl⟩)
    · obtain rfl := Option.some.inj hf
      -- The copy has the rows of the table, in their order.
      have hrows := hcopy.vectors
      rw [h₁.vectors] at hrows
      obtain ⟨t', ht', hrows⟩ := Option.map_eq_some_iff.mp hrows
      have hbacked : Backed t (some (.sqlite copy)) := ⟨copy, t', rfl, ht', by rw [hrows]⟩
      have h₃ : Old t { w₁ with bak := some (.sqlite copy), tmp := none } :=
        ⟨h₁.version, h₁.vectors, fun _ => hbacked⟩
      exact obeys_copy_into_v1 hpositive h₃ hbacked report
    · exact (h₁.tmp _).failed _
  · have h₂ : Old t w₂ := by
      rcases hw₂ with rfl | rfl
      · exact h₁
      · exact h₁.tmp _
    exact h₂.failed _

theorem obeys_run_of_old (h : Old t w) : Obeys (files from_str t) (Ends from_str t) w run := by
  simp only [run, await, perform_bind]
  refine ⟨h.inv, ?_⟩
  rintro r w' ⟨rfl, rfl | ⟨e, rfl⟩⟩
  · have hversion : ¬ SCHEMA_VERSION ≤ w'.db.user_version := by
      rw [h.version]
      decide
    dsimp only
    rw [if_neg hversion]
    refine ⟨h.inv, ?_⟩
    rintro r w' ⟨rfl, rfl | ⟨e, rfl⟩⟩
    · rw [h.vectors]
      refine ⟨h.inv, ?_⟩
      rintro r w' ⟨t', ht', rfl, rfl | ⟨e, rfl⟩⟩
      · obtain rfl := Option.some.inj (h.vectors.symm.trans ht')
        refine ⟨h.inv, ?_⟩
        rintro (_ | _) w' ⟨rfl, -⟩
        · exact obeys_write_backup hpositive h _
        · refine ⟨h.inv, ?_⟩
          rintro (_ | _) w' ⟨rfl, hpasses⟩
          · exact obeys_write_backup hpositive h _
          · exact obeys_copy_into_v1 hpositive h (h.backup (hpasses rfl)) _
      · exact h.failed e
    · exact h.failed e
  · exact h.failed _

theorem obeys_run (h : Inv from_str t w) : Obeys (files from_str t) (Ends from_str t) w run := by
  rcases h.version with ⟨hversion, hvectors, hbackup⟩ | ⟨hversion, -, -⟩
  · exact obeys_run_of_old hpositive ⟨hversion, hvectors, hbackup⟩
  · simp only [run, await, perform_bind]
    refine ⟨h, ?_⟩
    rintro r w' ⟨rfl, rfl | ⟨e, rfl⟩⟩
    · dsimp only
      rw [if_pos (by rw [hversion])]
      exact ⟨h, fun _ _ => hversion⟩
    · exact ⟨h, fun _ hok => (nomatch hok)⟩

end

/-! ## Runs -/

/-- The files are in order, and the process goes on in order. -/
structure Going (from_str : String → Except String (List F32)) (t : Vectors) (s : State) : Prop where
  obeys : Obeys (files from_str t) (Ends from_str t) s.world s.task

theorem Going.inv {s : State} (h : Going from_str t s) : Inv from_str t s.world :=
  inv_of_obeys h.obeys

theorem Going.step (hpositive : ∀ (n : Int) (row : Row), t[n]? = some row → Parses from_str row → 0 < n)
    {s s' : State} {l : Label} (h : Going from_str t s) (hstep : Step from_str s l s') :
    Going from_str t s' := by
  cases hstep with
  | @act e k r w htask hw =>
    have hobeys := h.obeys
    rw [htask] at hobeys
    exact ⟨hobeys.2 r w hw⟩
  | @restart w hw =>
    refine ⟨obeys_run hpositive ?_⟩
    rcases hw with rfl | ⟨-, rfl⟩
    · exact h.inv
    · exact ⟨h.inv.version⟩

theorem Going.kept {s : State} (h : Going from_str t s) : Kept from_str t s := by
  have hne : SCHEMA_VERSION ≠ 0 := by decide
  rcases h.inv.version with ⟨hversion, hvectors, -⟩ | ⟨hversion, hmigrated, hbacked⟩
  · refine ⟨.inl hversion, fun _ => hvectors, ?_, ?_, ?_⟩
    · exact fun hnew => absurd (hnew.symm.trans hversion) hne
    · exact fun hnew => absurd (hnew.symm.trans hversion) hne
    · intro report hdone
      have hobeys := h.obeys
      rw [hdone] at hobeys
      exact hobeys.2 report rfl
  · refine ⟨.inr hversion, ?_, fun _ => hmigrated, fun _ => hbacked, fun _ _ => hversion⟩
    exact fun hold => absurd (hversion.symm.trans hold) hne

/-- What a process that is not stopped makes of the files. -/
theorem run_of_exec {s₀ : State} {trace : List Label} {m : Act (Except String MigrateReport)}
    {result : Except String MigrateReport} (h : Exec (Handle from_str) w m result w')
    (hrun : Run (Step from_str) s₀ trace ⟨m, w⟩) :
    ∃ trace', Run (Step from_str) s₀ trace' ⟨.done result, w'⟩ := by
  induction h generalizing trace with
  | done => exact ⟨trace, hrun⟩
  | call hw _ ih => exact ih (hrun.step (.act rfl hw))

/-- Two texts: an array of the number 1, and one that is no JSON. -/
def sample_from_str (s : String) : Except String (List F32) :=
  if s = "[1]" then .ok [0x3f800000] else .error "expected value at line 1 column 1"

def sample_row (id vector : String) : Row :=
  { collection := "mem", id, text := "alpha", vector := .text vector, metadata := "\x7b\x7d", updated_at := 5 }

/-- A file of version 0, and what lies beside it. -/
def sample_world (t : Vectors) (bak tmp : Option File) : World :=
  { db :=
      { user_version := 0, vectors := some t
        collections := some { has_model := false, rows := (∅ : Table String Collection).insert "mem" ⟨1, none, 1⟩ } }
    bak, tmp }

/-- The database after the transaction. -/
def committed (db : Database) : Except String (Nat × Nat) × Database :=
  (Db.transaction none (migrate sample_from_str)).exec db

theorem exec_copy_into_v1 (w : World) (report : MigrateReport) :
    ∃ result, Exec (Handle sample_from_str) w (copy_into_v1 report) result { w with db := (committed w.db).2 } := by
  have hw : Handle sample_from_str w .transaction (committed w.db).1 { w with db := (committed w.db).2 } :=
    ⟨none, rfl, rfl⟩
  rcases hresult : (committed w.db).1 with e | counts
  · rw [hresult] at hw
    exact ⟨.error e, exec_call_iff.mpr ⟨_, _, hw, .done⟩⟩
  · rw [hresult] at hw
    exact ⟨_, exec_call_iff.mpr ⟨_, _, hw, .done⟩⟩

/-- A run that writes a backup. -/
theorem exec_writes (t : Vectors) (bak tmp : Option File) :
    ∃ result, Exec (Handle sample_from_str) (sample_world t bak tmp) run result
      { db := (committed (sample_world t bak tmp).db).2
        bak := some (.sqlite (sample_world t bak tmp).db)
        tmp := none } := by
  have hcopies : Copies (sample_world t bak tmp).db (sample_world t bak tmp).db := ⟨rfl, rfl, rfl⟩
  obtain ⟨result, h⟩ := exec_copy_into_v1
    (sample_world t (some (.sqlite (sample_world t bak tmp).db)) none)
    { from_version := 0, migrated_rows := 0, skipped_rows := 0, backup := true }
  refine ⟨result, ?_⟩
  refine exec_call_iff.mpr ⟨.ok 0, _, ⟨rfl, .inl rfl⟩, ?_⟩
  refine exec_call_iff.mpr ⟨.ok true, _, ⟨rfl, .inl rfl⟩, ?_⟩
  refine exec_call_iff.mpr ⟨.ok t.size, _, ⟨t, rfl, rfl, .inl rfl⟩, ?_⟩
  refine exec_call_iff.mpr ⟨false, _, ⟨rfl, nofun⟩, ?_⟩
  refine exec_call_iff.mpr ⟨(), sample_world t bak none, .inr rfl, ?_⟩
  refine exec_call_iff.mpr ⟨.ok (), _, .inl ⟨rfl, rfl, _, hcopies, rfl⟩, ?_⟩
  exact exec_call_iff.mpr ⟨.ok (), _, .inl ⟨rfl, _, rfl, rfl⟩, h⟩

/-- A run that keeps the backup that is there. -/
theorem exec_keeps (t : Vectors) (bak tmp : Option File) (hpasses : passes bak t.size) :
    ∃ result, Exec (Handle sample_from_str) (sample_world t bak tmp) run result
      { sample_world t bak tmp with db := (committed (sample_world t bak tmp).db).2 } := by
  have hbak : bak.isSome := by
    obtain ⟨content, -, rfl, -⟩ := hpasses
    rfl
  obtain ⟨result, h⟩ := exec_copy_into_v1 (sample_world t bak tmp)
    { from_version := 0, migrated_rows := 0, skipped_rows := 0, backup := false }
  refine ⟨result, ?_⟩
  refine exec_call_iff.mpr ⟨.ok 0, _, ⟨rfl, .inl rfl⟩, ?_⟩
  refine exec_call_iff.mpr ⟨.ok true, _, ⟨rfl, .inl rfl⟩, ?_⟩
  refine exec_call_iff.mpr ⟨.ok t.size, _, ⟨t, rfl, rfl, .inl rfl⟩, ?_⟩
  refine exec_call_iff.mpr ⟨true, _, ⟨rfl, fun _ => hbak⟩, ?_⟩
  exact exec_call_iff.mpr ⟨true, _, ⟨rfl, fun _ => hpasses⟩, h⟩

def one_row (n : Int) (id : String) : Vectors :=
  (∅ : Vectors).insert n (sample_row id "[1]")

/-- Two rows, one of which is skipped. -/
def sample_rows : Vectors :=
  (∅ : Vectors).insert 1 (sample_row "a" "[1]") |>.insert 2 (sample_row "b" "x")

/-- A file of version 0 whose rows have the numbers that SQLite gives, beside a backup of these rows if
one passes the check, is kept wherever the process stops. -/
theorem migration_keeps {w₀ : World} {s : State} {trace : List Label}
    (hversion : w₀.db.user_version = 0) (hvectors : w₀.db.vectors = some t)
    (hsound : Sound from_str t w₀.bak) (hrun : Run (Step from_str) ⟨run, w₀⟩ trace s) :
    Kept from_str t s := by
  have hold : Old t w₀ := ⟨hversion, hvectors, hsound.backup⟩
  have hgoing : Going from_str t s :=
    hrun.invariant_state ⟨obeys_run_of_old hsound.positive hold⟩ fun _ _ _ h hstep =>
      h.step hsound.positive hstep
  exact hgoing.kept

theorem migration_keeps_sample :
    ∃ trace result w, Run (Step sample_from_str) ⟨run, sample_world sample_rows none (some .damaged)⟩ trace
        ⟨.done result, w⟩ ∧ w.db.user_version = 1 ∧ Kept sample_from_str sample_rows ⟨.done result, w⟩ := by
  obtain ⟨result, hexec⟩ := exec_writes sample_rows none (some .damaged)
  obtain ⟨trace, hrun⟩ := run_of_exec hexec .start
  refine ⟨trace, result, _, hrun, by decide, migration_keeps rfl rfl ⟨?_, ?_⟩ hrun⟩
  · intro n row hrow _
    rw [sample_rows, Table.getElem?_insert_ite, Table.getElem?_insert_ite] at hrow
    split_ifs at hrow with h₂ h₁
    · omega
    · omega
    · simp at hrow
  · rintro ⟨content, t', hnone, -⟩
    cases hnone

/-- The backup of another file, with as many rows, is kept; and a row is lost whose number is not
positive. -/
theorem other_backup_kept :
    (∃ trace result w,
      Run (Step sample_from_str)
        ⟨run, sample_world (one_row 1 "a") (some (.sqlite (sample_world (one_row 1 "b") none none).db)) none⟩
        trace ⟨.done result, w⟩ ∧
      w.db.user_version = 1 ∧ ¬ Backed (one_row 1 "a") w.bak) ∧
    ∃ trace result w,
      Run (Step sample_from_str) ⟨run, sample_world (one_row (-1) "a") none none⟩ trace ⟨.done result, w⟩ ∧
      w.db.user_version = 1 ∧ ¬ Migrated sample_from_str (one_row (-1) "a") w.db := by
  have hrows : ∀ n id, rowsOf (one_row n id) = [sample_row id "[1]"] := by
    intro n id
    rw [one_row, rowsOf, Table.toList_insert_of_lt _ (fun _ _ h => by simp at h)]
    rfl
  constructor
  · obtain ⟨result, hexec⟩ := exec_keeps (one_row 1 "a")
      (some (.sqlite (sample_world (one_row 1 "b") none none).db)) none ⟨_, _, rfl, rfl, by decide⟩
    obtain ⟨trace, hrun⟩ := run_of_exec hexec .start
    refine ⟨trace, result, _, hrun, by decide, ?_⟩
    rintro ⟨content, t', hbak, ht', hperm⟩
    obtain rfl := File.sqlite.inj (Option.some.inj hbak)
    obtain rfl := Option.some.inj ht'
    rw [hrows, hrows] at hperm
    have hsame := congrArg Row.id (List.singleton_perm_singleton.mp hperm)
    exact absurd hsame (by decide)
  · obtain ⟨result, hexec⟩ := exec_writes (one_row (-1) "a") none none
    obtain ⟨trace, hrun⟩ := run_of_exec hexec .start
    refine ⟨trace, result, _, hrun, by decide, ?_⟩
    rintro ⟨t', ht', hall⟩
    have hempty : (committed (sample_world (one_row (-1) "a") none none).db).2.vectors.map rowsOf = some [] := by
      decide
    have ht'' : rowsOf t' = [] := by
      rw [ht'] at hempty
      exact Option.some.inj hempty
    have hparses : Parses sample_from_str (sample_row "a" "[1]") :=
      ⟨"[1]", [0x3f800000], rfl, by decide, List.cons_ne_nil _ _⟩
    rw [hrows, ht'', List.filter_cons_of_pos (by simpa using hparses)] at hall
    cases hall

end VectorDb.Migrate
