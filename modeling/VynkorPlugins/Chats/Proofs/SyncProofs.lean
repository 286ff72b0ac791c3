import VynkorPlugins.Chats.Proofs.StoreProofs
import VynkorPlugins.Chats.Sync

/-!
# A copy kept by `chat_sync` converges
-/

namespace Chats

open Rust Transition

variable {s s' : Store}

/-! ## What a page holds -/

/-- The change by which a row of the store is sent. -/
inductive IsChange (s : Store) : Change → Prop
  | session {id row} (h : s.live id = some row) : IsChange s (sessionChange id row)
  | turn {k : Nat} {t : Turn} {row} (h : s.turns[k]? = some t) (hlive : s.live t.session_id = some row) :
      IsChange s (turnChange t)
  | delete {id rev} (h : s.tombstones[id]? = some rev) : IsChange s (deleteChange id rev)

theorem mem_orderedRows {limit : Int} {rows : List Change} {c : Change}
    (h : c ∈ orderedRows limit rows) : c ∈ rows := by
  unfold orderedRows at h
  simp only at h
  split_ifs at h
  · exact (List.mem_insertionSort _).mp h
  · exact (List.mem_insertionSort _).mp (List.mem_of_mem_take h)

theorem mem_sessionChanges {lo hi : Int} {c : Change} :
    c ∈ sessionChanges s lo hi ↔
      ∃ id row, s.live id = some row ∧ c = sessionChange id row ∧ lo < row.rev ∧ row.rev ≤ hi := by
  constructor
  · intro h
    obtain ⟨⟨id, row⟩, hmem, rfl⟩ := List.mem_map.mp h
    obtain ⟨hrow, hp⟩ := Table.mem_selectWhere.mp hmem
    simp only [Bool.and_eq_true, decide_eq_true_eq] at hp
    exact ⟨id, row, live_eq_some.mpr ⟨hrow, hp.1.1⟩, rfl, hp.1.2, hp.2⟩
  · rintro ⟨id, row, hlive, rfl, hlo, hhi⟩
    obtain ⟨hrow, hstate⟩ := live_eq_some.mp hlive
    refine List.mem_map.mpr ⟨(id, row), Table.mem_selectWhere.mpr ⟨hrow, ?_⟩, rfl⟩
    simp [hstate, hlo, hhi]

theorem mem_turnChanges {lo hi : Int} {c : Change} :
    c ∈ turnChanges s lo hi ↔
      ∃ (k : Nat) (t : Turn) (row : Session), s.turns[k]? = some t ∧ s.live t.session_id = some row ∧
        c = turnChange t ∧ lo < t.rev ∧ t.rev ≤ hi := by
  constructor
  · intro h
    obtain ⟨⟨k, t⟩, hmem, rfl⟩ := List.mem_map.mp h
    obtain ⟨hk, hp⟩ := Table.mem_selectWhere.mp hmem
    simp only [Bool.and_eq_true, decide_eq_true_eq] at hp
    obtain ⟨row, hrow⟩ := Option.isSome_iff_exists.mp hp.2
    exact ⟨k, t, row, hk, hrow, rfl, hp.1.1, hp.1.2⟩
  · rintro ⟨k, t, row, hk, hrow, rfl, hlo, hhi⟩
    refine List.mem_map.mpr ⟨(k, t), Table.mem_selectWhere.mpr ⟨hk, ?_⟩, rfl⟩
    simp [hrow, hlo, hhi]

theorem mem_deleteChanges {lo hi : Int} {c : Change} :
    c ∈ deleteChanges s lo hi ↔
      ∃ id rev, s.tombstones[id]? = some rev ∧ c = deleteChange id rev ∧ lo < rev ∧ rev ≤ hi := by
  constructor
  · intro h
    obtain ⟨⟨id, rev⟩, hmem, rfl⟩ := List.mem_map.mp h
    obtain ⟨hrev, hp⟩ := Table.mem_selectWhere.mp hmem
    simp only [Bool.and_eq_true, decide_eq_true_eq] at hp
    exact ⟨id, rev, hrev, rfl, hp.1, hp.2⟩
  · rintro ⟨id, rev, hrev, rfl, hlo, hhi⟩
    refine List.mem_map.mpr ⟨(id, rev), Table.mem_selectWhere.mpr ⟨hrev, ?_⟩, rfl⟩
    simp [hlo, hhi]

/-- The changes of the three sources together. -/
theorem mem_sources {lo hi : Int} {c : Change} :
    (c ∈ sessionChanges s lo hi ∨ c ∈ turnChanges s lo hi ∨ c ∈ deleteChanges s lo hi) ↔
      IsChange s c ∧ lo < c.rev ∧ c.rev ≤ hi := by
  rw [mem_sessionChanges, mem_turnChanges, mem_deleteChanges]
  constructor
  · rintro (⟨id, row, h, rfl, hb⟩ | ⟨k, t, row, h, hlive, rfl, hb⟩ | ⟨id, rev, h, rfl, hb⟩)
    · exact ⟨.session h, hb⟩
    · exact ⟨.turn h hlive, hb⟩
    · exact ⟨.delete h, hb⟩
  · rintro ⟨hc, hb⟩
    cases hc with
    | session h => exact .inl ⟨_, _, h, rfl, hb⟩
    | turn h hlive => exact .inr (.inl ⟨_, _, _, h, hlive, rfl, hb⟩)
    | delete h => exact .inr (.inr ⟨_, _, h, rfl, hb⟩)

theorem mem_fetch {lo hi limit : Int} {c : Change} (h : c ∈ fetch s lo hi limit) :
    IsChange s c ∧ lo < c.rev ∧ c.rev ≤ hi := by
  rw [fetch, List.mem_insertionSort, List.mem_append, List.mem_append, or_assoc] at h
  exact mem_sources.mp (h.imp mem_orderedRows (.imp mem_orderedRows mem_orderedRows))

/-- Without a limit every change is fetched. -/
theorem mem_fetch_unlimited {lo hi limit : Int} (hlimit : limit < 0) {c : Change} :
    c ∈ fetch s lo hi limit ↔ IsChange s c ∧ lo < c.rev ∧ c.rev ≤ hi := by
  refine ⟨mem_fetch, fun h => ?_⟩
  rw [fetch, List.mem_insertionSort, List.mem_append, List.mem_append, or_assoc]
  simp only [orderedRows, if_pos hlimit, List.mem_insertionSort]
  exact mem_sources.mpr h

instance : Std.Total Change.le where
  total a b := by unfold Change.le; omega

instance : IsTrans Change Change.le where
  trans a b c := by unfold Change.le; omega

theorem fetch_sorted (lo hi limit : Int) :
    (fetch s lo hi limit).Pairwise fun a b => a.rev ≤ b.rev := by
  refine (List.pairwise_insertionSort Change.le _).imp ?_
  intro a b hab
  unfold Change.le at hab
  omega

theorem take_sublist_orderedRows {limit : Int} {n : Nat} (hlimit : limit < 0 ∨ limit = n)
    (rows : List Change) :
    ((rows.insertionSort (·.rev ≤ ·.rev)).take n).Sublist (orderedRows limit rows) := by
  unfold orderedRows
  rcases hlimit with hlimit | rfl
  · simp only [if_pos hlimit]
    exact List.take_sublist _ _
  · simp only [Int.toNat_natCast]
    rw [if_neg (by omega)]

/-- Every change below the last revision of a page is on it, wherever the limit cuts the sources. -/
theorem mem_take_fetch {lo hi limit : Int} {n : Nat} (hlimit : limit < 0 ∨ limit = n) {a c : Change}
    (hlast : ((fetch s lo hi limit).take n).getLast? = some c)
    (ha : IsChange s a ∧ lo < a.rev ∧ a.rev ≤ hi) (hlt : a.rev < c.rev) :
    a ∈ (fetch s lo hi limit).take n := by
  have hpage : ∀ rows : List Change, a ∈ rows →
      ((rows.insertionSort (·.rev ≤ ·.rev)).take n).Sublist
        (orderedRows limit (sessionChanges s lo hi) ++ orderedRows limit (turnChanges s lo hi) ++
          orderedRows limit (deleteChanges s lo hi)) → a ∈ (fetch s lo hi limit).take n := by
    intro rows hrows hsub
    have hsorted : (rows.insertionSort (·.rev ≤ ·.rev)).Pairwise fun a b : Change => a.rev ≤ b.rev := by
      have htotal : Std.Total fun a b : Change => a.rev ≤ b.rev := ⟨fun a b => le_total a.rev b.rev⟩
      have htrans : IsTrans Change fun a b => a.rev ≤ b.rev := ⟨fun _ _ _ => le_trans⟩
      exact List.pairwise_insertionSort _ rows
    exact Feed.mem_page Change.rev hsorted hsub (fetch_sorted lo hi limit)
      (List.perm_insertionSort _ _) hlast ((List.mem_insertionSort _).mpr hrows) hlt
  rcases mem_sources.mpr ha with h | h | h
  · refine hpage _ h ((take_sublist_orderedRows hlimit _).trans ?_)
    rw [List.append_assoc]
    exact List.sublist_append_left _ _
  · refine hpage _ h ((take_sublist_orderedRows hlimit _).trans ?_)
    exact (List.sublist_append_right _ _).trans (List.sublist_append_left _ _)
  · exact hpage _ h ((take_sublist_orderedRows hlimit _).trans (List.sublist_append_right _ _))

theorem exists_mem_orderedRows {limit : Int} (hlimit : limit < 0 ∨ 0 < limit) {rows : List Change}
    {c : Change} (hc : c ∈ rows) : ∃ c', c' ∈ orderedRows limit rows := by
  refine List.exists_mem_of_ne_nil _ fun hnil => ?_
  have hpos : 0 < rows.length := List.length_pos_of_mem hc
  have hzero := congrArg List.length hnil
  unfold orderedRows at hzero
  simp only at hzero
  split_ifs at hzero with hneg
  · rw [List.length_insertionSort] at hzero
    exact absurd hzero hpos.ne'
  · rw [List.length_take, List.length_insertionSort, List.length_nil] at hzero
    omega

/-- Something is fetched if there is something to fetch. -/
theorem fetch_ne_nil {lo hi limit : Int} (hlimit : limit < 0 ∨ 0 < limit) {c : Change}
    (hc : IsChange s c ∧ lo < c.rev ∧ c.rev ≤ hi) : fetch s lo hi limit ≠ [] := by
  have hmem : ∃ c', c' ∈ fetch s lo hi limit := by
    simp only [fetch, List.mem_insertionSort, List.mem_append]
    rcases mem_sources.mpr hc with h | h | h <;>
      obtain ⟨c', hc'⟩ := exists_mem_orderedRows hlimit h
    · exact ⟨c', .inl (.inl hc')⟩
    · exact ⟨c', .inl (.inr hc')⟩
    · exact ⟨c', .inr hc'⟩
  obtain ⟨c', hc'⟩ := hmem
  exact List.ne_nil_of_mem hc'

/-- A `usize` keeps its value as an `i64`, or becomes negative. -/
theorem wrapI64_natCast {n : Nat} (hn : n < 2 ^ 64) : wrapI64 n < 0 ∨ wrapI64 n = n := by
  unfold wrapI64
  rw [Int.bmod_def]
  omega

/-- A page holds every change up to its revision, and nothing else; if there is no more, there is no
    change beyond it. -/
structure Page.Complete (page : Page) (s : Store) (since_rev : Int) : Prop where
  reset : page.reset = false
  since_le : since_rev ≤ page.rev
  rev_le : page.rev ≤ s.rev
  mem : ∀ c, c ∈ page.changes ↔ IsChange s c ∧ since_rev < c.rev ∧ c.rev ≤ page.rev
  no_more : page.more = false → ∀ c, IsChange s c → c.rev ≤ page.rev

theorem IsChange.rev_le {c : Change} (h : IsChange s c) (hs : s.WellFormed) : c.rev ≤ s.rev := by
  cases h with
  | session h => exact hs.session_rev _ _ (live_eq_some.mp h).1
  | turn h => exact hs.turn_rev _ _ h
  | delete h => exact hs.tombstone_rev _ _ h

theorem sync_complete {since_rev : Int} {limit sync_max : UInt64} (hs : s.WellFormed)
    (hsince : since_rev ≤ s.rev) : (sync s since_rev limit sync_max).Complete s since_rev := by
  have hmax : ∀ c, IsChange s c → (c.rev : Int) ≤ i64Max := by
    intro c hc
    have := (hc.rev_le hs).trans s.rev_le
    exact_mod_cast this
  unfold sync
  simp only
  rw [if_neg (not_lt.mpr hsince)]
  have hn : max (min limit.toNat sync_max.toNat) 1 < 2 ^ 64 := by
    have := limit.toNat_lt
    omega
  generalize hlim : max (min limit.toNat sync_max.toNat) 1 = n at hn
  have hpos : 0 < n := by omega
  have hlimit := wrapI64_natCast hn
  split
  · -- no change at all: the sources give their first rows, if they have any
    rename_i hlast
    have hnone : ∀ c, IsChange s c → ¬ since_rev < c.rev := by
      intro c hc hlt
      have hne : fetch s since_rev i64Max (wrapI64 n) ≠ [] :=
        fetch_ne_nil (by omega) ⟨hc, hlt, hmax c hc⟩
      rw [List.getLast?_eq_none_iff, List.take_eq_nil_iff] at hlast
      exact hlast.elim hpos.ne' hne
    refine ⟨rfl, le_rfl, hsince, fun c => ?_, fun _ c hc => not_lt.mp (hnone c hc)⟩
    constructor
    · intro h
      cases h
    · rintro ⟨hc, hlt, -⟩
      exact absurd hlt (hnone c hc)
  · rename_i c hlast
    have hmem := mem_fetch (List.mem_of_mem_take (List.mem_of_getLast? hlast))
    refine ⟨rfl, hmem.2.1.le, ?_, fun a => ?_, fun hmore a ha => ?_⟩
    · exact Int.ofNat_le.mpr (hmem.1.rev_le hs)
    · rw [List.mem_append, List.mem_filter, mem_fetch_unlimited (by decide)]
      constructor
      · rintro (⟨ha, hlt⟩ | ⟨ha, hlo, hhi⟩)
        · have ha := mem_fetch (List.mem_of_mem_take ha)
          have hlt := of_decide_eq_true hlt
          exact ⟨ha.1, ha.2.1, Int.ofNat_le.mpr hlt.le⟩
        · exact ⟨ha, by have := hmem.2.1; omega, hhi⟩
      · rintro ⟨ha, hlo, hhi⟩
        rcases (Int.ofNat_le.mp hhi).lt_or_eq with hlt | heq
        · exact .inl ⟨mem_take_fetch hlimit hlast ⟨ha, hlo, hmax a ha⟩ hlt, decide_eq_true hlt⟩
        · exact .inr ⟨ha, by rw [heq]; omega, by rw [heq]⟩
    · by_contra hlt
      have hne : fetch s c.rev i64Max 1 ≠ [] :=
        fetch_ne_nil (by decide) ⟨ha, not_le.mp hlt, hmax a ha⟩
      rw [Bool.not_eq_false', List.isEmpty_iff] at hmore
      exact hne hmore

/-! ## What a page does to a copy -/

/-- A change to the session `id` of a copy. -/
def sessionWrite (id : String) (r : Option SessionView) (c : Change) : Option SessionView :=
  match c.body with
  | .session v => if v.id = id then some v else r
  | .turn _ => r
  | .delete id' => if id' = id then none else r

/-- A change to the turn `id` of a copy. -/
def turnWrite (id : String) (r : Option TurnView) (c : Change) : Option TurnView :=
  match c.body with
  | .session _ => r
  | .turn v => if v.id = id then some v else r
  | .delete id' => r.filter fun v => !decide (v.session_id = id')

theorem foldl_sessions (cs : List Change) (copy : Copy) (id : String) :
    (cs.foldl Copy.applyChange copy).sessions[id]? =
      cs.foldl (sessionWrite id) copy.sessions[id]? := by
  induction cs generalizing copy with
  | nil => rfl
  | cons c cs ih =>
    rw [List.foldl_cons, List.foldl_cons, ih]
    congr 1
    unfold Copy.applyChange sessionWrite
    cases c.body with
    | session v => exact Table.getElem?_insert_ite _ _ _ _
    | turn v => rfl
    | delete id' => exact Table.getElem?_erase_ite _ _ _

theorem foldl_turns (cs : List Change) (copy : Copy) (id : String) :
    (cs.foldl Copy.applyChange copy).turns[id]? = cs.foldl (turnWrite id) copy.turns[id]? := by
  induction cs generalizing copy with
  | nil => rfl
  | cons c cs ih =>
    rw [List.foldl_cons, List.foldl_cons, ih]
    congr 1
    unfold Copy.applyChange turnWrite
    cases c.body with
    | session v => rfl
    | turn v => exact Table.getElem?_insert_ite _ _ _ _
    | delete id' => exact Table.getElem?_deleteWhere _ _ _

/-- A session that is there after some changes was written by one of them, or was there before and
    none of them deletes it. -/
theorem foldl_sessionWrite {id : String} {cs : List Change} {r : Option SessionView}
    {v : SessionView} (h : cs.foldl (sessionWrite id) r = some v) :
    (∃ c ∈ cs, c.body = .session v ∧ v.id = id) ∨ r = some v ∧ ∀ c ∈ cs, c.body ≠ .delete id := by
  induction cs generalizing r with
  | nil => exact .inr ⟨h, fun c hc => nomatch hc⟩
  | cons c cs ih =>
    rcases ih h with ⟨c', hc', hbody⟩ | ⟨hr, hkept⟩
    · exact .inl ⟨c', List.mem_cons_of_mem _ hc', hbody⟩
    unfold sessionWrite at hr
    cases hbody : c.body with
    | session v' =>
      simp only [hbody] at hr
      split_ifs at hr with hid
      · obtain rfl := Option.some.inj hr
        exact .inl ⟨c, List.mem_cons_self, hbody, hid⟩
      · exact .inr ⟨hr, List.forall_mem_cons.mpr ⟨by simp [hbody], hkept⟩⟩
    | turn v' =>
      simp only [hbody] at hr
      exact .inr ⟨hr, List.forall_mem_cons.mpr ⟨by simp [hbody], hkept⟩⟩
    | delete id' =>
      simp only [hbody] at hr
      split_ifs at hr with hid
      exact .inr ⟨hr, List.forall_mem_cons.mpr ⟨by simp [hbody, hid], hkept⟩⟩

theorem foldl_turnWrite {id : String} {cs : List Change} {r : Option TurnView} {v : TurnView}
    (h : cs.foldl (turnWrite id) r = some v) :
    (∃ c ∈ cs, c.body = .turn v ∧ v.id = id) ∨
      r = some v ∧ ∀ c ∈ cs, c.body ≠ .delete v.session_id := by
  induction cs generalizing r with
  | nil => exact .inr ⟨h, fun c hc => nomatch hc⟩
  | cons c cs ih =>
    rcases ih h with ⟨c', hc', hbody⟩ | ⟨hr, hkept⟩
    · exact .inl ⟨c', List.mem_cons_of_mem _ hc', hbody⟩
    unfold turnWrite at hr
    cases hbody : c.body with
    | session v' =>
      simp only [hbody] at hr
      exact .inr ⟨hr, List.forall_mem_cons.mpr ⟨by simp [hbody], hkept⟩⟩
    | turn v' =>
      simp only [hbody] at hr
      split_ifs at hr with hid
      · obtain rfl := Option.some.inj hr
        exact .inl ⟨c, List.mem_cons_self, hbody, hid⟩
      · exact .inr ⟨hr, List.forall_mem_cons.mpr ⟨by simp [hbody], hkept⟩⟩
    | delete id' =>
      simp only [hbody] at hr
      obtain ⟨hr, hid⟩ := Option.filter_eq_some_iff.mp hr
      refine .inr ⟨hr, List.forall_mem_cons.mpr ⟨?_, hkept⟩⟩
      rintro heq
      rw [hbody] at heq
      simp [Body.delete.inj heq] at hid

/-! ## The simulation -/

/-- The copy has exactly the sessions and the turns of the store. -/
def Copy.Agrees (copy : Copy) (s : Store) : Prop :=
  (∀ id, copy.sessions[id]? = (s.live id).map (sessionFromRow id)) ∧
  ∀ id v, copy.turns[id]? = some v ↔
    ∃ (k : Nat) (t : Turn) (row : Session), s.turns[k]? = some t ∧ s.live t.session_id = some row ∧
      t.id = id ∧ v = turnFromRow t

/-- A copy at some revision has everything up to that revision, and what it has beyond the store has
    been deleted since. -/
structure Copy.Behind (copy : Copy) (s : Store) : Prop where
  rev_nonneg : 0 ≤ copy.rev
  rev_le : copy.rev ≤ s.rev
  sessions : ∀ id row, s.live id = some row → row.rev ≤ copy.rev →
    copy.sessions[id]? = some (sessionFromRow id row)
  turns : ∀ (k : Nat) (t : Turn), s.turns[k]? = some t → t.rev ≤ copy.rev →
    copy.turns[t.id]? = some (turnFromRow t)
  sessions_only : ∀ (id : String) (v : SessionView), copy.sessions[id]? = some v →
    (∃ row, s.live id = some row) ∨ ∃ rev, s.tombstones[id]? = some rev ∧ copy.rev < rev
  turns_only : ∀ (id : String) (v : TurnView), copy.turns[id]? = some v →
    (∃ (k : Nat) (t : Turn), s.turns[k]? = some t ∧ t.id = id ∧ v = turnFromRow t) ∨
      ∃ rev, s.tombstones[v.session_id]? = some rev ∧ copy.rev < rev

theorem behind_empty : Copy.empty.Behind .empty := by
  constructor <;> simp [Copy.empty, Store.empty, Store.live]

/-- No event of the store gets a copy out of the simulation: what it changes has a newer revision. -/
theorem Effect.behind {copy : Copy} {ev : Event} (h : Effect s ev s')
    (hb : copy.Behind s) : copy.Behind s' := by
  have hrev := hb.rev_le
  -- a session whose row is newer than the copy, or is sent as before
  have hsession : ∀ {id : String} {row : Session}, s'.sessions = s.sessions.insert id row →
      s'.tombstones = s.tombstones → row.state = .live →
      (row.rev ≤ copy.rev → copy.sessions[id]? = some (sessionFromRow id row)) →
      (∀ id' row', s'.live id' = some row' → row'.rev ≤ copy.rev →
        copy.sessions[id']? = some (sessionFromRow id' row')) ∧
      ∀ (id' : String) (v : SessionView), copy.sessions[id']? = some v →
        (∃ row, s'.live id' = some row) ∨ ∃ rev, s'.tombstones[id']? = some rev ∧ copy.rev < rev := by
    intro id row hsessions htomb hlive hrow
    have hlive' : ∀ id', s'.live id' = if id = id' then some row else s.live id' := by
      intro id'
      rw [live_insert hsessions, if_pos hlive]
    refine ⟨fun id' row' h hle => ?_, fun id' v h => ?_⟩
    · rw [hlive'] at h
      split_ifs at h with hid
      · obtain rfl := Option.some.inj h
        exact hid ▸ hrow hle
      · exact hb.sessions id' row' h hle
    · rw [hlive', htomb]
      split_ifs
      · exact .inl ⟨row, rfl⟩
      · exact hb.sessions_only id' v h
  have heff := h
  cases h with
  | nothing => exact hb
  | requeued => exact ⟨hb.1, hb.2, hb.3, hb.4, hb.5, hb.6⟩
  | saved => exact ⟨hb.1, hb.2, hb.3, hb.4, hb.5, hb.6⟩
  | @created id row hlt hid hlive hturns hnew =>
    obtain ⟨hsessions, honly⟩ := hsession rfl rfl hlive (by omega)
    exact ⟨hb.rev_nonneg, by simp only; omega, hsessions, hb.turns, honly, hb.turns_only⟩
  | @edited id row row' hlt hrow hlive hturns hnew =>
    obtain ⟨hsessions, honly⟩ := hsession rfl rfl hlive (by omega)
    exact ⟨hb.rev_nonneg, by simp only; omega, hsessions, hb.turns, honly, hb.turns_only⟩
  | @marked id row hrow summarized_rev embedded_rev =>
    have hlive := (live_eq_some.mp hrow).2
    obtain ⟨hsessions, honly⟩ := hsession rfl rfl hlive (hb.sessions id row hrow)
    exact ⟨hb.rev_nonneg, hrev, hsessions, hb.turns, honly, hb.turns_only⟩
  | @appended t row hlt hrow hseq hnew hid last_at =>
    have hlive := (live_eq_some.mp hrow).2
    obtain ⟨hsessions, honly⟩ := hsession rfl rfl hlive (by simp only; omega)
    refine ⟨hb.rev_nonneg, by simp only; omega, hsessions, fun k t' h hle => ?_, honly,
      fun tid v h => ?_⟩
    · rw [Table.getElem?_insert_ite] at h
      split_ifs at h
      · obtain rfl := Option.some.inj h
        omega
      · exact hb.turns k t' h hle
    · refine (hb.turns_only tid v h).imp_left ?_
      rintro ⟨k, t', hk, heq⟩
      refine ⟨k, t', ?_, heq⟩
      rw [Table.getElem?_insert_ite, if_neg (Table.lt_nextRowid hk).ne']
      exact hk
  | @deleted id row row' hlt hrow htomb hdel hnew goal_ids =>
    have hlive := heff.live_deleted
    refine ⟨hb.rev_nonneg, by simp only; omega, fun id' r h hle => ?_, fun k t h hle => ?_,
      fun id' v h => ?_, fun tid v h => ?_⟩
    · rw [hlive] at h
      split_ifs at h
      exact hb.sessions id' r h hle
    · rw [Table.getElem?_deleteWhere, Option.filter_eq_some_iff] at h
      exact hb.turns k t h.1 hle
    · rw [hlive, Table.getElem?_insert_ite]
      split_ifs with hid
      · exact .inr ⟨_, rfl, by push_cast; omega⟩
      · exact hb.sessions_only id' v h
    · simp only [Table.getElem?_insert_ite, Table.getElem?_deleteWhere]
      by_cases hid : id = v.session_id
      · rw [if_pos hid]
        exact .inr ⟨_, rfl, by push_cast; omega⟩
      · rw [if_neg hid]
        refine (hb.turns_only tid v h).imp_left ?_
        rintro ⟨k, t, hk, rfl, rfl⟩
        have hne : t.session_id ≠ id := Ne.symm hid
        exact ⟨k, t, by simp [hk, Option.filter, hne], rfl, rfl⟩
  | @finished job row hrow hgen swept =>
    have hlive := heff.live_finished
    refine ⟨hb.rev_nonneg, hrev, fun id r h => ?_, hb.turns, fun id v h => ?_, hb.turns_only⟩
    · exact hb.sessions id r ((hlive id).symm.trans h)
    · refine (hb.sessions_only id v h).imp_left ?_
      rintro ⟨r, hr⟩
      exact ⟨r, (hlive id).trans hr⟩

/-- After a page the copy is at the revision of the page. -/
theorem behind_applyPage {copy : Copy} {page : Page} (hs : s.WellFormed) (hb : copy.Behind s)
    (hp : page.Complete s copy.rev) : (copy.applyPage page).Behind s := by
  rw [Copy.applyPage, hp.reset, if_neg Bool.false_ne_true]
  -- whatever is on the page is as it is in the store now
  have hsession : ∀ c ∈ page.changes, ∀ v, c.body = .session v →
      ∃ row, s.live v.id = some row ∧ v = sessionFromRow v.id row := by
    intro c hc v hbody
    cases ((hp.mem c).mp hc).1 with
    | session h =>
      obtain rfl := Body.session.inj hbody
      exact ⟨_, h, rfl⟩
    | turn h => cases hbody
    | delete h => cases hbody
  have hturn : ∀ c ∈ page.changes, ∀ v, c.body = .turn v →
      ∃ (k : Nat) (t : Turn), s.turns[k]? = some t ∧ v = turnFromRow t := by
    intro c hc v hbody
    cases ((hp.mem c).mp hc).1 with
    | session h => cases hbody
    | turn h =>
      obtain rfl := Body.turn.inj hbody
      exact ⟨_, _, h, rfl⟩
    | delete h => cases hbody
  have hdelete : ∀ c ∈ page.changes, ∀ id, c.body = .delete id → s.live id = none := by
    intro c hc id hbody
    cases ((hp.mem c).mp hc).1 with
    | session h => cases hbody
    | turn h => cases hbody
    | delete h =>
      obtain rfl := Body.delete.inj hbody
      refine Option.eq_none_iff_forall_ne_some.mpr fun row hrow => ?_
      rw [hs.not_both _ row hrow] at h
      cases h
  constructor
  case rev_nonneg => exact hb.rev_nonneg.trans hp.since_le
  case rev_le => exact hp.rev_le
  case sessions =>
    intro id row hrow hle
    rw [foldl_sessions]
    have hkeep : ∀ c ∈ page.changes, sessionWrite id (some (sessionFromRow id row)) c =
        some (sessionFromRow id row) := by
      intro c hc
      unfold sessionWrite
      cases hbody : c.body with
      | session v =>
        simp only
        split_ifs with hid
        · obtain ⟨row', hrow', hv⟩ := hsession c hc v hbody
          rw [hid, hrow] at hrow'
          rw [hv, hid, ← Option.some.inj hrow']
        · rfl
      | turn v => rfl
      | delete id' =>
        have hne : id' ≠ id := by
          rintro rfl
          rw [hdelete c hc _ hbody] at hrow
          cases hrow
        simp only [if_neg hne]
    by_cases hold : row.rev ≤ copy.rev
    · rw [hb.sessions id row hrow hold]
      exact Feed.foldl_keep hkeep
    · refine Feed.foldl_write hkeep ⟨sessionChange id row, ?_, fun r => ?_⟩ _
      · exact (hp.mem _).mpr ⟨.session hrow, not_le.mp hold, hle⟩
      · simp only [sessionWrite, sessionChange]
        exact if_pos rfl
  case turns =>
    intro k t ht hle
    rw [foldl_turns]
    obtain ⟨row, hrow⟩ := hs.turn_live k t ht
    have hkeep : ∀ c ∈ page.changes, turnWrite t.id (some (turnFromRow t)) c =
        some (turnFromRow t) := by
      intro c hc
      unfold turnWrite
      cases hbody : c.body with
      | session v => rfl
      | turn v =>
        simp only
        split_ifs with hid
        · obtain ⟨k', t', ht', rfl⟩ := hturn c hc v hbody
          rw [hs.turn_unique k' k t' t ht' ht hid]
        · rfl
      | delete id' =>
        have hne : (turnFromRow t).session_id ≠ id' := by
          rintro rfl
          exact absurd ((hdelete c hc _ hbody).symm.trans hrow) (by simp)
        simp [Option.filter, hne]
    by_cases hold : t.rev ≤ copy.rev
    · rw [hb.turns k t ht hold]
      exact Feed.foldl_keep hkeep
    · refine Feed.foldl_write hkeep ⟨turnChange t, ?_, fun r => ?_⟩ _
      · exact (hp.mem _).mpr ⟨.turn ht hrow, not_le.mp hold, hle⟩
      · simp only [turnWrite, turnChange]
        exact if_pos rfl
  case sessions_only =>
    intro id v hv
    rw [foldl_sessions] at hv
    rcases foldl_sessionWrite hv with ⟨c, hc, hbody, rfl⟩ | ⟨hv, hkept⟩
    · obtain ⟨row, hrow, -⟩ := hsession c hc v hbody
      exact .inl ⟨row, hrow⟩
    · refine (hb.sessions_only id v hv).imp_right ?_
      rintro ⟨rev, hrev, hlt⟩
      refine ⟨rev, hrev, not_le.mp fun hle => ?_⟩
      exact hkept (deleteChange id rev) ((hp.mem _).mpr ⟨.delete hrev, hlt, hle⟩) rfl
  case turns_only =>
    intro id v hv
    rw [foldl_turns] at hv
    rcases foldl_turnWrite hv with ⟨c, hc, hbody, rfl⟩ | ⟨hv, hkept⟩
    · obtain ⟨k, t, ht, rfl⟩ := hturn c hc v hbody
      exact .inl ⟨k, t, ht, rfl, rfl⟩
    · refine (hb.turns_only id v hv).imp_right ?_
      rintro ⟨rev, hrev, hlt⟩
      refine ⟨rev, hrev, not_le.mp fun hle => ?_⟩
      exact hkept (deleteChange v.session_id rev) ((hp.mem _).mpr ⟨.delete hrev, hlt, hle⟩) rfl

/-- A copy that has everything there is to send has exactly what the store has. -/
theorem Copy.Behind.agrees {copy : Copy} (hb : copy.Behind s) (hs : s.WellFormed)
    (hall : ∀ c, IsChange s c → c.rev ≤ copy.rev) : copy.Agrees s := by
  refine ⟨fun id => ?_, fun id v => ⟨fun hv => ?_, ?_⟩⟩
  · cases hrow : s.live id with
    | some row => exact hb.sessions id row hrow (hall _ (.session hrow))
    | none =>
      refine Option.eq_none_iff_forall_ne_some.mpr fun v hv => ?_
      rcases hb.sessions_only id v hv with ⟨row, hlive⟩ | ⟨rev, hrev, hlt⟩
      · rw [hrow] at hlive
        cases hlive
      · exact absurd (hall _ (.delete hrev)) (not_le.mpr hlt)
  · rcases hb.turns_only id v hv with ⟨k, t, ht, hid, hview⟩ | ⟨rev, hrev, hlt⟩
    · obtain ⟨row, hrow⟩ := hs.turn_live k t ht
      exact ⟨k, t, row, ht, hrow, hid, hview⟩
    · exact absurd (hall _ (.delete hrev)) (not_le.mpr hlt)
  · rintro ⟨k, t, row, ht, hrow, rfl, rfl⟩
    exact hb.turns k t ht (hall _ (.turn ht hrow))

/-! ## Runs -/

theorem chatSync_complete {cfg : Config} {since_rev : Int} {limit : Option Int64}
    {fault : Option String} {page : Page} (h : chatSync cfg since_rev limit fault s = .ok page)
    (hs : s.WellFormed) (h0 : 0 ≤ since_rev) (hsince : since_rev ≤ s.rev) :
    page.Complete s since_rev := by
  unfold chatSync at h
  cases fault with
  | some e => cases h
  | none =>
    obtain rfl := Except.ok.inj h
    rw [max_eq_left h0]
    exact sync_complete hs hsince

theorem synced_step {p p' : Synced} {l : SyncLabel} (h : SyncStep p l p') (hs : p.store.WellFormed)
    (hb : p.copy.Behind p.store) : p'.copy.Behind p'.store := by
  cases h with
  | call h =>
    obtain ⟨ev, heff, -⟩ := perform_effect h.1
    exact heff.behind hb
  | @sync answer cfg limit fault h =>
    cases answer with
    | error e => exact hb
    | ok page => exact behind_applyPage hs hb (chatSync_complete h hs hb.rev_nonneg hb.rev_le)

theorem synced_run {trace : List SyncLabel} {p : Synced}
    (hrun : Run SyncStep ⟨.empty, .empty⟩ trace p) (hids : (drawn (SyncLabel.calls trace)).Nodup) :
    RunInv (SyncLabel.calls trace) p.store ∧ p.copy.Behind p.store := by
  refine hrun.invariant (I := fun trace p => (drawn (SyncLabel.calls trace)).Nodup →
    RunInv (SyncLabel.calls trace) p.store ∧ p.copy.Behind p.store) ?_ ?_ hids
  · intro hids
    exact ⟨runInv .start hids, behind_empty⟩
  · intro trace p l p' ih h hids
    have hsub : (drawn (SyncLabel.calls trace)).Sublist (drawn (SyncLabel.calls (l :: trace))) :=
      ((List.sublist_cons_self l trace).filterMap _).filterMap _
    obtain ⟨hinv, hb⟩ := ih (hids.sublist hsub)
    refine ⟨?_, synced_step h hinv.wellFormed hb⟩
    cases h with
    | call h => exact runInv_step hinv h hids
    | sync => exact hinv

/-- Once a `chat_sync` has answered that there is no more, the copy has exactly the live sessions and
    their turns, as long as the store stays as it is. -/
theorem sync_converges {trace later : List SyncLabel} {p p' p'' : Synced} {page : Page}
    (hrun : Run SyncStep ⟨.empty, .empty⟩ trace p) (hids : (drawn (SyncLabel.calls trace)).Nodup)
    (hsync : SyncStep p (.sync (.ok page)) p') (hmore : page.more = false)
    (hlater : Run SyncStep p' later p'') (hcalls : ∀ l ∈ later, ∃ c, l = .call c)
    (hstore : p''.store = p'.store) : p''.copy.Agrees p''.store := by
  obtain ⟨hinv, hb⟩ := synced_run hrun hids
  have hs := hinv.wellFormed
  have hcopy : p''.copy = p'.copy := by
    refine hlater.invariant (I := fun later p'' => (∀ l ∈ later, ∃ c, l = SyncLabel.call c) →
      p''.copy = p'.copy) (fun _ => rfl) ?_ hcalls
    intro trace q l q' ih h hcalls
    obtain ⟨⟨c, rfl⟩, hrest⟩ := List.forall_mem_cons.mp hcalls
    cases h
    exact ih hrest
  have hb' := synced_step hsync hs hb
  rw [hcopy, hstore]
  cases hsync with
  | sync cfg limit fault h =>
    have hp := chatSync_complete h hs hb.rev_nonneg hb.rev_le
    refine hb'.agrees hs fun c hc => ?_
    have hrev : (p.copy.applyPage page).rev = page.rev := by
      rw [Copy.applyPage, hp.reset, if_neg Bool.false_ne_true]
    simp only [hrev]
    exact hp.no_more hmore c hc

/-- A client that reads one revision at a time, while the store changes. -/
def sampleSyncs : List SyncRequest :=
  (sampleCalls.take 3).map .call ++ [.sync (some 1), .sync (some 1)] ++
    (sampleCalls.drop 3).map .call ++ [.sync (some 1)]

def sampleSynced : List SyncLabel × Synced :=
  (runOf (fun p a => some (answerSync p a)) ⟨.empty, .empty⟩ sampleSyncs).get (by decide)

theorem sync_converges_sample :
    (answerSync sampleSynced.2 (.sync none)).2.copy.Agrees sampleSynced.2.store := by
  have hrun : Run SyncStep ⟨.empty, .empty⟩ sampleSynced.1 sampleSynced.2 := by
    refine run_runOf (fun p a l p' h => ?_) (Option.some_get _).symm
    obtain ⟨rfl, rfl⟩ := Prod.mk.inj (Option.some.inj h)
    exact syncStep_answerSync p a
  have hids : (drawn (SyncLabel.calls sampleSynced.1)).Nodup := by decide
  have hanswer : (chatSync {} sampleSynced.2.copy.rev none none sampleSynced.2.store).map Page.more =
      .ok false := by decide
  have hlast := syncStep_answerSync sampleSynced.2 (.sync none)
  cases hpage : chatSync {} sampleSynced.2.copy.rev none none sampleSynced.2.store with
  | error e => cases hpage
  | ok page =>
    rw [hpage] at hanswer
    simp only [answerSync, hpage] at hlast ⊢
    exact sync_converges hrun hids hlast (Except.ok.inj hanswer) .start (fun l hl => nomatch hl) rfl

end Chats
