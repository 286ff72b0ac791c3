import VynkorPlugins.Base.Text
import VynkorPlugins.Chats.Listing
import VynkorPlugins.Chats.Proofs.StoreProofs

/-!
# The pages of sessions cover every session once
-/

namespace Chats

open Rust Transition

/-! ## Cursors -/

variable {s s' : Store} {p : ListParams} {c : Option (Int × Option String)}

theorem splitOnce_append {a b : String} {ch : Char} (ha : ch ∉ a.toList) :
    splitOnce (a ++ String.singleton ch ++ b) ch = some (a, b) := by
  have hne : ∀ x ∈ a.toList, decide (x ≠ ch) = true := by
    intro x hx
    exact decide_eq_true fun heq => ha (heq ▸ hx)
  have hlist : (a ++ String.singleton ch ++ b).toList = a.toList ++ ch :: b.toList := by
    simp
  unfold splitOnce
  rw [hlist, List.dropWhile_append_of_pos hne, List.takeWhile_append_of_pos hne]
  simp

theorem colon_notMem_intChars (n : Int) : ':' ∉ Json.intChars n := by
  have hdigits : ∀ m, ':' ∉ Nat.toDigits 10 m := by
    intro m hm
    have hdigit := Nat.isDigit_of_mem_toDigits (b := 10) (by decide) (by decide) hm
    cases hdigit
  cases n with
  | ofNat n => exact hdigits n
  | negSucc n =>
    intro h
    rcases List.mem_cons.mp h with h | h
    · cases h
    · exact hdigits _ h

/-- The cursor after a session is read as the session it names. -/
theorem parseCursor_formatCursor {v : SessionView} (hid : v.id ≠ "") (hlo : -2 ^ 63 ≤ v.last_at)
    (hhi : v.last_at < 2 ^ 63) :
    parseCursor (.str (formatCursor v)) = .ok (v.last_at, some v.id) := by
  have hsplit : splitOnce (formatCursor v) ':' = some ((Json.int v.last_at).print, v.id) := by
    refine splitOnce_append ?_
    rw [Json.print, Json.chars, String.toList_ofList]
    exact colon_notMem_intChars _
  have hparse : parseI64 (Json.int v.last_at).print.toList = some (Int64.ofInt v.last_at) := by
    rw [Json.print, Json.chars, String.toList_ofList]
    exact parseI64_intChars hlo hhi
  have hint : (Int64.ofInt v.last_at).toInt = v.last_at := Int64.toInt_ofInt_of_le hlo hhi
  simp only [parseCursor, hsplit, if_neg hid, hparse, hint]

/-! ## The rows of the query -/

/-- More recently active, or as recently with a larger id. -/
def Newer (a b : String × Session) : Prop :=
  b.2.last_at < a.2.last_at ∨ b.2.last_at = a.2.last_at ∧ b.1 < a.1

theorem newer_asymm (a b : String × Session) (h : Newer a b) : ¬ Newer b a := by
  rintro h'
  rcases h with h | ⟨heq, hlt⟩ <;> rcases h' with h' | ⟨heq', hlt'⟩
  · omega
  · omega
  · omega
  · exact absurd hlt' (not_lt.mpr hlt.le)

instance : Std.Total ListedLe where
  total a b := by
    unfold ListedLe
    rcases lt_trichotomy a.2.last_at b.2.last_at with h | h | h
    · exact .inr (.inl h)
    · rcases le_total a.1 b.1 with hid | hid
      · exact .inr (.inr ⟨h, hid⟩)
      · exact .inl (.inr ⟨h.symm, hid⟩)
    · exact .inl (.inl h)

instance : IsTrans (String × Session) ListedLe where
  trans a b c := by
    rintro (hab | ⟨hab, hid⟩) (hbc | ⟨hbc, hid'⟩)
    · exact .inl (hbc.trans hab)
    · exact .inl (hbc ▸ hab)
    · exact .inl (hab ▸ hbc)
    · exact .inr ⟨hbc.trans hab, hid'.trans hid⟩

theorem mem_listed {r : String × Session} :
    r ∈ listed s p c ↔ s.sessions[r.1]? = some r.2 ∧ p.Lists r.2 ∧ After c r := by
  rw [listed, List.mem_insertionSort, Table.mem_selectWhere, decide_eq_true_eq]

/-- No two rows of the query have the same id, so their order is strict. -/
theorem listed_sorted (s : Store) (p : ListParams) (c : Option (Int × Option String)) :
    (listed s p c).Pairwise Newer := by
  have hnodup : (listed s p c).Pairwise fun a b => a.1 ≠ b.1 := by
    have hkeys := Table.nodup_selectWhere s.sessions fun id row =>
      decide (p.Lists row ∧ After c (id, row))
    rw [List.Nodup, List.pairwise_map] at hkeys
    exact (List.perm_insertionSort ListedLe _).symm.pairwise hkeys fun h => h.symm
  refine ((List.pairwise_insertionSort ListedLe _).and hnodup).imp ?_
  rintro a b ⟨hle | ⟨heq, hle⟩, hne⟩
  · exact .inl hle
  · exact .inr ⟨heq, lt_of_le_of_ne hle hne.symm⟩

/-- What the query gives after the last row of a page is what it gives behind that page. -/
theorem listed_after {n : Nat} {r : String × Session}
    (hr : ((listed s p c).take n).getLast? = some r) :
    listed s p (some (r.2.last_at, some r.1)) = (listed s p c).drop n := by
  have hsorted := listed_sorted s p c
  have hmem := mem_listed.mp (List.mem_of_mem_take (List.mem_of_getLast? hr))
  refine Pages.eq_of_mem_iff newer_asymm (listed_sorted s p _) (hsorted.sublist (List.drop_sublist n _))
    fun b => ?_
  rw [Pages.mem_drop_iff newer_asymm hsorted hr, mem_listed, mem_listed]
  constructor
  · rintro ⟨hb, hlists, hafter⟩
    refine ⟨⟨hb, hlists, ?_⟩, hafter⟩
    -- `b` comes after `r`, and so after the cursor that `r` comes after
    have hbefore := hmem.2.2
    unfold After at hafter hbefore ⊢
    rcases c with _ | ⟨last_at, _ | id⟩
    · trivial
    · dsimp only at hafter hbefore ⊢
      omega
    · dsimp only at hafter hbefore ⊢
      rcases hafter with hafter | ⟨hafter, hlt⟩ <;> rcases hbefore with hbefore | ⟨hbefore, hlt'⟩
      · exact .inl (hafter.trans hbefore)
      · exact .inl (hbefore ▸ hafter)
      · exact .inl (hafter ▸ hbefore)
      · exact .inr ⟨hafter.trans hbefore, hlt.trans hlt'⟩
  · rintro ⟨⟨hb, hlists, -⟩, hafter⟩
    exact ⟨hb, hlists, hafter⟩

/-! ## Pages -/

def ListParams.pageSize (p : ListParams) : Nat := (max 1 (min (p.limit.getD 50) 200)).toNat

def viewOf (r : String × Session) : SessionView := sessionFromRow r.1 r.2

/-- The first rows of the query, with a cursor if there are more of them. -/
def pageOf (s : Store) (p : ListParams) (c : Option (Int × Option String)) : Listing where
  sessions := ((listed s p c).take p.pageSize).map viewOf
  next_before :=
    if p.pageSize < (listed s p c).length then
      ((listed s p c).take p.pageSize).getLast?.map fun r => formatCursor (viewOf r)
    else none

theorem list_eq (h : p.cursor = .ok c) : list p none s = .ok (pageOf s p c) := by
  have hsize : max 1 (min (p.limit.getD 50) 200) = (p.pageSize : Int) := by
    unfold ListParams.pageSize
    omega
  have hmore : (((listed s p c).take (p.pageSize + 1)).length : Int) > (p.pageSize : Int) ↔
      p.pageSize < (listed s p c).length := by
    rw [List.length_take]
    omega
  simp only [list, hsize, h, Except.bind, bind, pure, Except.pure, List.length_map]
  have htoNat : ((p.pageSize : Int) + 1).toNat = p.pageSize + 1 := by omega
  have htake : (listed s p c).take (min p.pageSize (p.pageSize + 1)) =
      (listed s p c).take p.pageSize := by
    rw [min_eq_left (Nat.le_succ _)]
  rw [htoNat, Int.toNat_natCast, ← List.map_take, List.take_take, htake, List.getLast?_map,
    Option.map_map]
  simp only [hmore]
  rfl

/-- What the types of the columns and `ulid::Ulid::new` give: times are `i64`s, and no id is
    empty. -/
def Store.Typed (s : Store) : Prop :=
  ∀ (id : String) (row : Session), s.sessions[id]? = some row →
    id ≠ "" ∧ -2 ^ 63 ≤ row.last_at ∧ row.last_at < 2 ^ 63

/-- A call at a time that is an `i64`, with a drawn id that is not empty. -/
def Call.Typed : Call → Prop
  | .resolve _ _ now ulid => ulid ≠ "" ∧ -2 ^ 63 ≤ now ∧ now < 2 ^ 63
  | .append _ _ now _ => -2 ^ 63 ≤ now ∧ now < 2 ^ 63
  | _ => True

instance : DecidablePred Call.Typed
  | .resolve .. => inferInstanceAs (Decidable (_ ∧ _))
  | .append .. => inferInstanceAs (Decidable (_ ∧ _))
  | .update .. | .delete .. | .apply .. | .requeue .. | .saveProgress .. | .finish .. =>
    inferInstanceAs (Decidable True)

theorem typed_insert {id : String} {row : Session} (hs : s.Typed)
    (h : s'.sessions = s.sessions.insert id row)
    (hrow : id ≠ "" ∧ -2 ^ 63 ≤ row.last_at ∧ row.last_at < 2 ^ 63) : s'.Typed := by
  intro id' row' h'
  rw [h, Table.getElem?_insert_ite] at h'
  split_ifs at h' with hid
  · obtain rfl := Option.some.inj h'
    exact hid ▸ hrow
  · exact hs id' row' h'

theorem typed_step {l : CallLabel} (hs : s.Typed) (h : CallStep s l s') (hl : l.call.Typed) :
    s'.Typed := by
  have hrows := perform_rows h.1
  have hlive : ∀ {id row}, s.live id = some row →
      id ≠ "" ∧ -2 ^ 63 ≤ row.last_at ∧ row.last_at < 2 ^ 63 :=
    fun h => hs _ _ (live_eq_some.mp h).1
  generalize hcall : l.call = call at hrows hl
  generalize l.reply = reply at hrows
  generalize htable : s'.sessions = table at hrows
  cases hrows with
  | failed | found | undeleted | unapplied | requeued | saved | unfinished =>
    intro id row h
    rw [htable] at h
    exact hs id row h
  | created => exact typed_insert hs htable hl
  | appended hrow =>
    have := hlive hrow
    refine typed_insert hs htable ⟨this.1, ?_, ?_⟩
    · exact le_max_of_le_left this.2.1
    · exact max_lt this.2.2 hl.2
  | updated hrow | deleted hrow | unusable hrow | usable hrow =>
    have hrow := hlive hrow
    exact typed_insert hs htable hrow
  | finished =>
    intro id row h
    rw [htable, Table.getElem?_erase_ite] at h
    split_ifs at h
    exact hs id row h

theorem typed_run {trace : List CallLabel} (hrun : Run CallStep .empty trace s)
    (hcalls : ∀ l ∈ trace, l.call.Typed) : s.Typed := by
  refine hrun.invariant (I := fun trace s => (∀ l ∈ trace, l.call.Typed) → s.Typed) ?_ ?_ hcalls
  · intro _ id row h
    simp [Store.empty] at h
  · intro trace s l s' ih h hcalls
    obtain ⟨hl, hrest⟩ := List.forall_mem_cons.mp hcalls
    exact typed_step (ih hrest) h hl

/-- The sessions of some pages are those that are listed, each once and in their order. -/
structure Covers (s : Store) (p : ListParams) (pages : List Listing) : Prop where
  sorted : (pages.flatMap Listing.sessions).Pairwise fun a b =>
    b.last_at < a.last_at ∨ b.last_at = a.last_at ∧ b.id < a.id
  mem : ∀ v, v ∈ pages.flatMap Listing.sessions ↔
    ∃ id row, s.sessions[id]? = some row ∧ p.Lists row ∧ v = sessionFromRow id row

theorem covers_of_eq {pages : List Listing}
    (h : pages.flatMap Listing.sessions = (listed s p none).map viewOf) : Covers s p pages := by
  refine ⟨?_, fun v => ?_⟩
  · rw [h, List.pairwise_map]
    exact listed_sorted s p none
  · rw [h, List.mem_map]
    constructor
    · rintro ⟨r, hr, rfl⟩
      obtain ⟨hrow, hlists, -⟩ := mem_listed.mp hr
      exact ⟨r.1, r.2, hrow, hlists, rfl⟩
    · rintro ⟨id, row, hrow, hlists, rfl⟩
      exact ⟨(id, row), mem_listed.mpr ⟨hrow, hlists, trivial⟩, rfl⟩

/-- The row after which the next page starts. -/
theorem getLast?_take {n : Nat} {l : List (String × Session)} (hn : 0 < n) (hl : n < l.length) :
    ∃ r, (l.take n).getLast? = some r ∧ (l.drop n).length < l.length := by
  have hne : l.take n ≠ [] := by
    intro h
    have hlen := congrArg List.length h
    rw [List.length_take, List.length_nil] at hlen
    omega
  refine ⟨_, List.getLast?_eq_some_getLast hne, ?_⟩
  rw [List.length_drop]
  omega

/-- The pages that follow from a cursor on hold what the query gives from there on. -/
theorem follow_listed (hs : s.Typed) {fuel : Nat} {before : Option Json}
    (h : ({ p with before } : ListParams).cursor = .ok c) (hfuel : (listed s p c).length < fuel) :
    ∃ pages, Pages.follow (listPage s p) fuel before = some pages ∧
      pages.flatMap Listing.sessions = (listed s p c).map viewOf := by
  have hpos : 0 < p.pageSize := by
    unfold ListParams.pageSize
    omega
  -- what is still to come after a cursor
  let rest (b : Option Json) : Nat := match ({ p with before := b } : ListParams).cursor with
    | .ok c => (listed s p c).length
    | .error _ => 0
  have hrest : rest before < fuel := by
    simp only [rest, h]
    exact hfuel
  have hgeneral := Pages.follow_total (listPage s p) rest
    (I := fun b => ∃ c, ({ p with before := b } : ListParams).cursor = .ok c)
    (Q := fun b pages => ∀ c, ({ p with before := b } : ListParams).cursor = .ok c →
      pages.flatMap Listing.sessions = (listed s p c).map viewOf) ?_ ⟨c, h⟩ hrest
  · obtain ⟨pages, hpages, hall⟩ := hgeneral
    exact ⟨pages, hpages, hall c h⟩
  rintro b ⟨c, hc⟩
  have hpage : list { p with before := b } none s = .ok (pageOf s p c) := list_eq hc
  refine ⟨pageOf s p c, (pageOf s p c).next_before.map fun cursor => some (.str cursor), ?_, ?_, ?_⟩
  · rw [listPage, hpage]
    rfl
  · -- the last page
    intro hnext c' hc'
    obtain rfl : c = c' := Except.ok.inj (hc.symm.trans hc')
    have hlen : (listed s p c).length ≤ p.pageSize := by
      by_contra hlt
      obtain ⟨r, hr, -⟩ := getLast?_take hpos (not_le.mp hlt)
      simp only [pageOf, if_pos (not_le.mp hlt), hr, Option.map_some] at hnext
      cases hnext
    rw [List.flatMap_singleton, pageOf, List.take_of_length_le hlen]
  · intro b' hnext
    by_cases hlt : p.pageSize < (listed s p c).length
    · obtain ⟨r, hr, hless⟩ := getLast?_take hpos hlt
      simp only [pageOf, if_pos hlt, hr, Option.map_some, Option.some.injEq] at hnext
      obtain ⟨hid, hlo, hhi⟩ :=
        hs r.1 r.2 (mem_listed.mp (List.mem_of_mem_take (List.mem_of_getLast? hr))).1
      have hcursor : ({ p with before := b' } : ListParams).cursor =
          .ok (some (r.2.last_at, some r.1)) := by
        have hparse := parseCursor_formatCursor (v := viewOf r) hid hlo hhi
        rw [← hnext]
        simp only [ListParams.cursor, hparse]
        rfl
      refine ⟨⟨_, hcursor⟩, ?_, fun pages hpages c' hc' => ?_⟩
      · simp only [rest, hcursor, hc]
        rw [listed_after hr]
        exact hless
      · obtain rfl : c = c' := Except.ok.inj (hc.symm.trans hc')
        rw [List.flatMap_cons, hpages _ hcursor, listed_after hr, pageOf, ← List.map_append,
          List.take_append_drop]
    · simp only [pageOf, if_neg hlt] at hnext
      cases hnext

/-- Following `next_before` from the first page on comes to a last page, and the pages cover the
    sessions that are listed. -/
theorem listing_covers (p : ListParams) (hs : s.Typed) :
    ∃ fuel pages, followListing s p fuel = some pages ∧ Covers s p pages := by
  have hcursor : ({ p with before := none } : ListParams).cursor = .ok none := rfl
  obtain ⟨pages, hpages, hall⟩ := follow_listed hs hcursor (Nat.lt_succ_self _)
  exact ⟨_, pages, hpages, covers_of_eq hall⟩

/-- Three sessions that were last active at one time, listed one by one. -/
def tiedCalls : List CallRequest :=
  ["a", "b", "c"].flatMap fun id =>
    [(.resolve {} ⟨id, "chat", "", none⟩ 100 id, none),
      (.append {} ⟨id, "hi", "hello", "ok", .null, none⟩ 200 (id ++ "1"), none)]

def tiedRun : List CallLabel × Store :=
  (runOf (fun s a => some (answerCall s a)) .empty tiedCalls).get (by decide)

theorem listing_covers_tied :
    ∃ fuel pages, followListing tiedRun.2 { limit := some 1 } fuel = some pages ∧
      Covers tiedRun.2 { limit := some 1 } pages := by
  have hrun : Run CallStep .empty tiedRun.1 tiedRun.2 := by
    refine run_runOf (fun s a l s' h => ?_) (Option.some_get _).symm
    obtain ⟨rfl, rfl⟩ := Prod.mk.inj (Option.some.inj h)
    exact callStep_answerCall s a
  have hcalls : ∀ l ∈ tiedRun.1, l.call.Typed := by decide
  exact listing_covers { limit := some 1 } (typed_run hrun hcalls)

example : (followListing tiedRun.2 { limit := some 1 } 4).map
    (fun pages => pages.flatMap fun page => page.sessions.map SessionView.id) =
      some ["c", "b", "a"] := by decide

end Chats
