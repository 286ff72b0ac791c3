import VynkorPlugins.Base.Proofs.LikeProofs
import VynkorPlugins.Database.Handler

/-!
# The listed keys

The wildcards of a text are escaped before it is compared with the keys, but the case of its letters is
not regarded.
-/

namespace Database

open Like
open Rust (replaceChar)

variable {kv : Kv} {key : String}

/-! ## The pattern -/

/-- A character as the three replacements leave it. -/
def escaped (c : Char) : List Char :=
  if c = '\\' ∨ c = '%' ∨ c = '_' then ['\\', c] else [c]

theorem keys_pattern_eq (pre : List Char) : keys_pattern pre = pre.flatMap escaped ++ ['%'] := by
  rw [keys_pattern, replaceChar, replaceChar, replaceChar, List.flatMap_assoc, List.flatMap_assoc]
  congr 2
  funext c
  by_cases hslash : c = '\\'
  · subst hslash
    rfl
  by_cases hpercent : c = '%'
  · subst hpercent
    rfl
  by_cases hunderscore : c = '_'
  · subst hunderscore
    rfl
  simp [escaped, hslash, hpercent, hunderscore]

/-- What is escaped stands for itself. -/
theorem tokens_escaped_append (pre rest : List Char) :
    tokens '\\' (pre.flatMap escaped ++ rest) = (tokens '\\' rest).map (pre.map .lit ++ ·) := by
  induction pre with
  | nil => simp
  | cons c pre ih =>
    rw [List.flatMap_cons, List.append_assoc, escaped]
    split_ifs with hc
    · show tokens '\\' ('\\' :: c :: (pre.flatMap escaped ++ rest)) = _
      rw [Like.tokens_escaped, ih, Option.map_map]
      rfl
    · rw [not_or, not_or] at hc
      obtain ⟨hslash, hpercent, hunderscore⟩ := hc
      have hof : Token.of c = .lit c := by simp [Token.of, hpercent, hunderscore]
      rw [List.singleton_append, Like.tokens_cons hslash, ih, Option.map_map, hof]
      rfl

/-- The pattern is like the texts that begin with the prefix up to the case of their letters. -/
theorem like_keys_pattern (pre key : List Char) :
    like '\\' key (keys_pattern pre) = true ↔ pre.map Char.toLower <+: key.map Char.toLower := by
  have htokens : tokens '\\' (keys_pattern pre) = some (pre.map Token.lit ++ [Token.any]) := by
    rw [keys_pattern_eq, tokens_escaped_append]
    rfl
  rw [like, htokens, Option.any_some, covers_append_any]
  constructor
  · rintro ⟨kept, ⟨rest, rfl⟩, hkept⟩
    rw [covers_lits.mp hkept, List.map_append]
    exact List.prefix_append _ _
  · rintro hpre
    have hkept : (key.take pre.length).map Char.toLower = pre.map Char.toLower := by
      rw [List.map_take, List.prefix_iff_eq_take.mp hpre, List.length_map]
    exact ⟨_, List.take_prefix _ _, covers_lits.mpr hkept.symm⟩

/-! ## The call -/

theorem mem_sweep {now_ms : Int64} : key ∈ kv.sweep now_ms ↔ (kv.live key now_ms).isSome := by
  rw [Std.ExtTreeMap.mem_iff_isSome_getElem?, Kv.sweep, Table.getElem?_deleteWhere, Kv.live]
  simp only [Bool.not_not]

/-- The keys that a call lists. -/
def listed (kv : Kv) (swept_at : Int64) (pre : String) : List String :=
  ((kv.sweep swept_at).selectWhere fun key _ =>
    like '\\' key.toList (keys_pattern pre.toList)).map Prod.fst

theorem exec_db_keys (kv : Kv) (swept_at : Int64) (pre : String) :
    (db_keys none none swept_at pre).exec kv =
      (.ok (.obj [("keys", .arr ((listed kv swept_at pre).map .str))]), kv.sweep swept_at) := by
  have hsweep : (sweep_expired swept_at none).exec kv = (.ok ⟨⟩, kv.sweep swept_at) := rfl
  rw [db_keys, Db.exec_bind, hsweep, listed, List.map_map]
  rfl

theorem listing_listed_iff (kv : Kv) (swept_at : Int64) (pre : String) :
    Listing (fun key => (kv.live key swept_at).isSome) pre (listed kv swept_at pre) ↔
      ∀ key, (kv.live key swept_at).isSome →
        pre.toList.map Char.toLower <+: key.toList.map Char.toLower → pre.toList <+: key.toList := by
  have hstored : (fun key => ((kv.live key swept_at).isSome : Prop)) = (· ∈ kv.sweep swept_at) := by
    funext key
    exact propext mem_sweep.symm
  rw [hstored, listed,
    Table.listing_iff _ (fun key => like '\\' key.toList (keys_pattern pre.toList))]
  refine forall_congr' fun key => ?_
  rw [mem_sweep]
  refine imp_congr_right fun _ => ?_
  rw [like_keys_pattern]
  refine ⟨fun h => h.mp, fun h => ⟨h, fun hpre => ?_⟩⟩
  exact hpre.map Char.toLower

/-- What `db_keys` answers. -/
def KeysExact (kv : Kv) (swept_at : Int64) (pre : String) : Prop :=
  ∃ keys, ((db_keys none none swept_at pre).exec kv).1 = .ok (.obj [("keys", .arr (keys.map .str))]) ∧
    Listing (fun key => (kv.live key swept_at).isSome) pre keys

theorem keysExact_iff_listing (kv : Kv) (swept_at : Int64) (pre : String) :
    KeysExact kv swept_at pre ↔
      Listing (fun key => (kv.live key swept_at).isSome) pre (listed kv swept_at pre) := by
  have hinj : Function.Injective (List.map Json.str) :=
    List.map_injective_iff.mpr fun a b h => Json.str.inj h
  constructor
  · rintro ⟨keys, hkeys, hlist⟩
    rw [exec_db_keys] at hkeys
    simp only [Except.ok.injEq, Json.obj.injEq, List.cons.injEq, Prod.mk.injEq, Json.arr.injEq,
      true_and, and_true] at hkeys
    rw [hinj hkeys]
    exact hlist
  · intro hlist
    exact ⟨_, by rw [exec_db_keys], hlist⟩

/-- The stored keys that begin with the prefix are listed, if no other one begins with it up to the case
    of its letters. -/
theorem keys_exact_iff (kv : Kv) (swept_at : Int64) (pre : String) :
    KeysExact kv swept_at pre ↔
      ∀ key, (kv.live key swept_at).isSome →
        pre.toList.map Char.toLower <+: key.toList.map Char.toLower → pre.toList <+: key.toList := by
  rw [keysExact_iff_listing, listing_listed_iff]

/-- A key in upper case is listed under a prefix in lower case. -/
theorem upper_case_listed :
    ¬ KeysExact (Std.ExtTreeMap.empty.insert "A1" { value := "1", updated_at := 0, expires_at := none })
      5 "a" := by
  rw [keysExact_iff_listing, listing_listed_iff]
  intro h
  have hlive : (Kv.live (Std.ExtTreeMap.empty.insert "A1"
      { value := "1", updated_at := 0, expires_at := none }) "A1" 5).isSome := by
    rw [Kv.live, Std.ExtTreeMap.getElem?_insert_self]
    rfl
  have hpre := h "A1" hlive (by decide)
  revert hpre
  decide

end Database
