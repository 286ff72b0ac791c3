import VynkorPlugins.Base.Pages
import VynkorPlugins.Chats.Proofs.SyncProofs

/-!
# The pages of `chat_sync` partition the changes
-/

namespace Chats

open Rust

variable {s : Store}

/-! ## Every row is fetched once -/

/-- A turn has one row. -/
theorem turn_key_unique (hs : s.WellFormed) {k k' : Nat} {t : Turn} (h : s.turns[k]? = some t)
    (h' : s.turns[k']? = some t) : k = k' := by
  obtain ⟨row, hrow⟩ := hs.turn_live k t h
  have hseq : ((s.turnRows t.session_id).map Turn.seq).Nodup := by
    rw [hs.turns_seq _ _ hrow]
    exact List.nodup_range'
  have hrows : (s.turnRows t.session_id).Nodup := hseq.of_map
  have hmem : ∀ {k : Nat}, s.turns[k]? = some t →
      (k, t) ∈ s.turns.selectWhere fun _ t' => t'.session_id = t.session_id :=
    fun h => Table.mem_selectWhere.mpr ⟨h, decide_eq_true rfl⟩
  exact congrArg Prod.fst (List.inj_on_of_nodup_map hrows (hmem h) (hmem h') rfl)

/-- Rows with different keys are sent by different changes, if the changes tell their keys. -/
theorem nodup_changes {κ ρ : Type} [Ord κ] [Std.TransOrd κ] [Std.LawfulEqOrd κ] {t : Table κ ρ}
    {p : κ → ρ → Bool} {f : κ × ρ → Change}
    (hf : ∀ k r k' r', t[k]? = some r → t[k']? = some r' → f (k, r) = f (k', r') → k = k') :
    ((t.selectWhere p).map f).Nodup := by
  have hkeys := Table.nodup_selectWhere t p
  refine hkeys.of_map.map_on fun a ha b hb hab => ?_
  have ha' := (Table.mem_selectWhere.mp ha).1
  have hb' := (Table.mem_selectWhere.mp hb).1
  have hkey := hf a.1 a.2 b.1 b.2 ha' hb' hab
  exact List.inj_on_of_nodup_map hkeys ha hb hkey

theorem nodup_orderedRows {limit : Int} {rows : List Change} (h : rows.Nodup) :
    (orderedRows limit rows).Nodup := by
  have hsorted := (List.perm_insertionSort (fun a b : Change => a.rev ≤ b.rev) rows).nodup_iff.mpr h
  unfold orderedRows
  split_ifs
  · exact hsorted
  · exact hsorted.sublist (List.take_sublist _ _)

theorem op_order_of_mem {lo hi : Int} {c : Change} :
    (c ∈ sessionChanges s lo hi → c.op_order = 0) ∧ (c ∈ turnChanges s lo hi → c.op_order = 1) ∧
      (c ∈ deleteChanges s lo hi → c.op_order = 2) := by
  rw [mem_sessionChanges, mem_turnChanges, mem_deleteChanges]
  refine ⟨?_, ?_, ?_⟩
  · rintro ⟨id, row, -, rfl, -⟩
    rfl
  · rintro ⟨k, t, row, -, -, rfl, -⟩
    rfl
  · rintro ⟨id, rev, -, rfl, -⟩
    rfl

theorem fetch_nodup (hs : s.WellFormed) (lo hi limit : Int) : (fetch s lo hi limit).Nodup := by
  have hsessions : (sessionChanges s lo hi).Nodup := by
    refine nodup_changes fun id row id' row' _ _ h => ?_
    have hbody := congrArg Change.body h
    exact congrArg SessionView.id (Body.session.inj hbody)
  have hturns : (turnChanges s lo hi).Nodup := by
    refine nodup_changes fun k t k' t' ht ht' h => ?_
    have hbody := congrArg Change.body h
    have hid : t.id = t'.id := congrArg TurnView.id (Body.turn.inj hbody)
    obtain rfl := hs.turn_unique k k' t t' ht ht' hid
    exact turn_key_unique hs ht ht'
  have hdeletes : (deleteChanges s lo hi).Nodup := by
    refine nodup_changes fun id rev id' rev' _ _ h => ?_
    have hbody := congrArg Change.body h
    exact Body.delete.inj hbody
  rw [fetch, (List.perm_insertionSort _ _).nodup_iff, List.nodup_append', List.nodup_append']
  refine ⟨⟨nodup_orderedRows hsessions, nodup_orderedRows hturns, ?_⟩, nodup_orderedRows hdeletes, ?_⟩
  · intro c hc hc'
    have h0 := op_order_of_mem.1 (mem_orderedRows hc)
    have h1 := op_order_of_mem.2.1 (mem_orderedRows hc')
    omega
  · intro c hc hc'
    have h2 := op_order_of_mem.2.2 (mem_orderedRows hc')
    rcases List.mem_append.mp hc with hc | hc
    · have h0 := op_order_of_mem.1 (mem_orderedRows hc)
      omega
    · have h1 := op_order_of_mem.2.1 (mem_orderedRows hc)
      omega

/-! ## One page -/

/-- A page has each of its changes once and in order, and is beyond the revision it was asked for if
    there is more. -/
theorem sync_sorted (hs : s.WellFormed) (since_rev : Int) (limit sync_max : UInt64) :
    (sync s since_rev limit sync_max).changes.Nodup ∧
      (sync s since_rev limit sync_max).changes.Pairwise Change.le ∧
        ((sync s since_rev limit sync_max).more = true →
          since_rev < (sync s since_rev limit sync_max).rev) := by
  have hfetch : ∀ lo hi limit, (fetch s lo hi limit).Pairwise Change.le :=
    fun lo hi limit => List.pairwise_insertionSort Change.le _
  unfold sync
  simp only
  split_ifs
  · exact ⟨List.nodup_nil, .nil, fun h => nomatch h⟩
  split
  · exact ⟨List.nodup_nil, .nil, fun h => nomatch h⟩
  · rename_i c hlast
    -- what is left of the page comes before the whole last group
    have hpage : ((fetch s since_rev i64Max (wrapI64 (max (min limit.toNat sync_max.toNat) 1 : Nat))).take
        (max (min limit.toNat sync_max.toNat) 1)).filter (·.rev < c.rev) |>.Sublist
          (fetch s since_rev i64Max (wrapI64 (max (min limit.toNat sync_max.toNat) 1 : Nat))) :=
      List.filter_sublist.trans (List.take_sublist _ _)
    have hbefore : ∀ a ∈ ((fetch s since_rev i64Max
        (wrapI64 (max (min limit.toNat sync_max.toNat) 1 : Nat))).take
          (max (min limit.toNat sync_max.toNat) 1)).filter (·.rev < c.rev),
        ∀ b ∈ fetch s (c.rev - 1) c.rev (-1), a.rev < b.rev := by
      intro a ha b hb
      have hlt := of_decide_eq_true (List.mem_filter.mp ha).2
      obtain ⟨-, hlo, hhi⟩ := mem_fetch hb
      omega
    refine ⟨?_, ?_, fun _ => ?_⟩
    · refine List.nodup_append'.mpr ⟨(fetch_nodup hs _ _ _).sublist hpage, fetch_nodup hs _ _ _, ?_⟩
      intro a ha ha'
      exact lt_irrefl _ (hbefore a ha a ha')
    · refine List.pairwise_append.mpr ⟨(hfetch _ _ _).sublist hpage, hfetch _ _ _, ?_⟩
      exact fun a ha b hb => .inl (hbefore a ha b hb)
    · exact (mem_fetch (List.mem_of_mem_take (List.mem_of_getLast? hlast))).2.1

/-! ## All pages -/

/-- The pages from a revision on, each asked for by the revision of the one before it, if the last one
    is among the first `fuel` pages. -/
def followSync (s : Store) (limit sync_max : UInt64) (fuel : Nat) (since_rev : Int) :
    Option (List Page) :=
  Pages.follow (fun since_rev =>
    let page := sync s since_rev limit sync_max
    some (page, if page.more then some page.rev else none)) fuel since_rev

/-- The pages hold the changes beyond a revision, each once and in order, and no revision is on two of
    them. -/
structure Partition (s : Store) (since_rev : Int) (pages : List Page) : Prop where
  mem : ∀ c, c ∈ pages.flatMap Page.changes ↔ IsChange s c ∧ since_rev < c.rev
  nodup : (pages.flatMap Page.changes).Nodup
  sorted : (pages.flatMap Page.changes).Pairwise Change.le
  groups : pages.Pairwise fun p q => ∀ c ∈ p.changes, ∀ c' ∈ q.changes, c.rev ≠ c'.rev

theorem partition_last {since_rev : Int} {page : Page} (hp : page.Complete s since_rev)
    (hnodup : page.changes.Nodup) (hsorted : page.changes.Pairwise Change.le)
    (hmore : page.more = false) : Partition s since_rev [page] := by
  refine ⟨fun c => ?_, ?_, ?_, List.pairwise_singleton _ _⟩
  · rw [List.flatMap_singleton, hp.mem]
    constructor
    · rintro ⟨hc, hlt, -⟩
      exact ⟨hc, hlt⟩
    · rintro ⟨hc, hlt⟩
      exact ⟨hc, hlt, hp.no_more hmore c hc⟩
  · rwa [List.flatMap_singleton]
  · rwa [List.flatMap_singleton]

theorem partition_cons {since_rev : Int} {page : Page} {pages : List Page}
    (hp : page.Complete s since_rev) (hnodup : page.changes.Nodup)
    (hsorted : page.changes.Pairwise Change.le) (hpages : Partition s page.rev pages) :
    Partition s since_rev (page :: pages) := by
  -- everything on the later pages is beyond this page
  have hlater : ∀ a ∈ page.changes, ∀ b ∈ pages.flatMap Page.changes, a.rev < b.rev := by
    intro a ha b hb
    have hle := ((hp.mem a).mp ha).2.2
    have hlt := ((hpages.mem b).mp hb).2
    omega
  constructor
  · intro c
    rw [List.flatMap_cons, List.mem_append, hp.mem, hpages.mem]
    constructor
    · rintro (⟨hc, hlt, -⟩ | ⟨hc, hlt⟩)
      · exact ⟨hc, hlt⟩
      · exact ⟨hc, hp.since_le.trans_lt hlt⟩
    · rintro ⟨hc, hlt⟩
      rcases le_or_gt (c.rev : Int) page.rev with hle | hgt
      · exact .inl ⟨hc, hlt, hle⟩
      · exact .inr ⟨hc, hgt⟩
  · rw [List.flatMap_cons]
    refine List.nodup_append'.mpr ⟨hnodup, hpages.nodup, ?_⟩
    intro a ha ha'
    exact lt_irrefl _ (hlater a ha a ha')
  · rw [List.flatMap_cons]
    refine List.pairwise_append.mpr ⟨hsorted, hpages.sorted, ?_⟩
    exact fun a ha b hb => .inl (hlater a ha b hb)
  · refine List.pairwise_cons.mpr ⟨fun q hq a ha b hb => ?_, hpages.groups⟩
    have hmem : b ∈ pages.flatMap Page.changes := List.mem_flatMap.mpr ⟨q, hq, hb⟩
    exact (hlater a ha b hmem).ne

/-- Following the returned revision until there is no more comes to a last page, and the pages
    partition the changes. -/
theorem sync_pages_partition {since_rev : Int} {limit sync_max : UInt64} (hs : s.WellFormed)
    (hsince : since_rev ≤ s.rev) :
    ∃ fuel pages, followSync s limit sync_max fuel since_rev = some pages ∧
      Partition s since_rev pages := by
  refine ⟨_, Pages.follow_total _ (fun rev : Int => (s.rev - rev).toNat)
    (I := fun rev : Int => rev ≤ s.rev) (Q := Partition s) ?_ hsince (Nat.lt_succ_self _)⟩
  intro rev hrev
  have hp : (sync s rev limit sync_max).Complete s rev := sync_complete hs hrev
  obtain ⟨hnodup, hsorted, hmore⟩ :=
    sync_sorted hs rev limit sync_max
  refine ⟨_, _, rfl, fun hnext => ?_, fun rev' hnext => ?_⟩
  · refine partition_last hp hnodup hsorted ?_
    split_ifs at hnext with hm
    exact Bool.eq_false_iff.mpr hm
  · split_ifs at hnext with hm
    obtain rfl := Option.some.inj hnext
    refine ⟨hp.rev_le, ?_, fun pages hpages => partition_cons hp hnodup hsorted hpages⟩
    have hlt := hmore hm
    have hle := hp.rev_le
    omega

theorem sync_pages_partition_sample :
    (0 : Int) ≤ sampleRun.2.rev ∧ ∃ fuel pages, followSync sampleRun.2 1 500 fuel 0 = some pages ∧
      Partition sampleRun.2 0 pages := by
  have hrun : Transition.Run CallStep .empty sampleRun.1 sampleRun.2 := by
    refine Transition.run_runOf (fun s a l s' h => ?_) (Option.some_get _).symm
    obtain ⟨rfl, rfl⟩ := Prod.mk.inj (Option.some.inj h)
    exact callStep_answerCall s a
  have hids : (drawn sampleRun.1).Nodup := by decide
  have hsince : (0 : Int) ≤ sampleRun.2.rev := Int.natCast_nonneg _
  exact ⟨hsince, sync_pages_partition (runInv hrun hids).wellFormed hsince⟩

end Chats
