import VynkorPlugins.Network.Cache

/-!
# The response cache keeps to its limits

Each change of the store moves its counter along with what it holds, and the loop that evicts ends
within the limits. What is found under a key is what was last put there, for a request with the same
key.
-/

namespace Network

open Transition

namespace CacheStore

variable {s : CacheStore} {iter : Iteration} {key k k' : String} {entry e e' : CacheEntry} {n : Nat}

/-- The counter is what the bodies take. -/
def Counted (s : CacheStore) : Prop :=
  s.total_bytes = (s.entries.toList.map fun e => e.2.body.length).sum

/-! ## Removing and inserting -/

theorem remove_of_some (h : s.entries[key]? = some e) : s.remove key =
    { entries := s.entries.erase key, total_bytes := s.total_bytes - e.body.length } := by
  unfold remove
  rw [h]

theorem remove_of_none (h : s.entries[key]? = none) : s.remove key = s := by
  unfold remove
  rw [h]

theorem getElem?_remove : (s.remove key).entries[k]? = if key = k then none else s.entries[k]? := by
  cases h : s.entries[key]? with
  | none =>
    rw [remove_of_none h]
    split_ifs with hk
    · rw [← hk, h]
    · rfl
  | some e => rw [remove_of_some h, Table.getElem?_erase_ite]

theorem size_remove (h : s.entries[key]? = some e) :
    (s.remove key).entries.size + 1 = s.entries.size := by
  rw [remove_of_some h]
  have hperm := (Table.toList_perm_erase h).length_eq
  rw [List.length_cons, Std.ExtTreeMap.length_toList, Std.ExtTreeMap.length_toList] at hperm
  exact hperm.symm

theorem Counted.sum_eq (hs : s.Counted) (h : s.entries[key]? = some e) : s.total_bytes =
    e.body.length + ((s.entries.erase key).toList.map fun e => e.2.body.length).sum := by
  have hperm := ((Table.toList_perm_erase h).map fun e : String × CacheEntry => e.2.body.length).sum_nat
  rw [List.map_cons, List.sum_cons] at hperm
  exact hs.trans hperm

theorem Counted.remove (hs : s.Counted) (key : String) : (s.remove key).Counted := by
  cases h : s.entries[key]? with
  | none =>
    rw [remove_of_none h]
    exact hs
  | some e =>
    rw [remove_of_some h]
    have hsum := hs.sum_eq h
    unfold Counted
    dsimp only
    omega

theorem remove_bytes_le (s : CacheStore) (key : String) :
    (s.remove key).total_bytes ≤ s.total_bytes := by
  cases h : s.entries[key]? with
  | none => rw [remove_of_none h]
  | some e =>
    rw [remove_of_some h]
    exact Nat.sub_le _ _

theorem getElem?_insert :
    (s.insert key entry).entries[k]? = if key = k then some entry else s.entries[k]? := by
  unfold insert
  rw [Table.getElem?_insert_ite, getElem?_remove]
  split_ifs <;> rfl

theorem Counted.insert (hs : s.Counted) (hbytes : s.total_bytes ≤ cacheMaxTotalBytes)
    (hentry : entry.body.length ≤ cacheMaxTotalBytes) : (s.insert key entry).Counted := by
  have hold := hs.remove key
  have hle := remove_bytes_le s key
  have hnew : ((s.remove key).entries.insert key entry)[key]? = some entry := by
    rw [Table.getElem?_insert_ite, if_pos rfl]
  have hperm := ((Table.toList_perm_erase hnew).map fun e : String × CacheEntry => e.2.body.length).sum_nat
  have hrest : ((s.remove key).entries.insert key entry).erase key = (s.remove key).entries := by
    refine Std.ExtTreeMap.ext_getElem? fun k => ?_
    rw [Table.getElem?_erase_ite, Table.getElem?_insert_ite, getElem?_remove]
    split_ifs <;> rfl
  rw [hrest, List.map_cons, List.sum_cons] at hperm
  unfold Counted CacheStore.insert
  rw [hperm, ← hold]
  unfold cacheMaxTotalBytes at hbytes hentry
  dsimp only
  omega

/-! ## Evicting -/

theorem oldest_spec (h : s.oldest iter = some (k, e)) :
    s.entries[k]? = some e ∧
      ∀ (k' : String) (e' : CacheEntry), s.entries[k']? = some e' → e.stored_at_ms ≤ e'.stored_at_ms := by
  have hmem : ∀ (k' : String) (e' : CacheEntry), (k', e') ∈ iter.entries s.entries ↔
      s.entries[k']? = some e' := by
    intro k' e'
    rw [(iter.perm s.entries).mem_iff, Std.ExtTreeMap.mem_toList_iff_getElem?_eq_some]
  refine ⟨(hmem k e).mp (List.argmin_mem h), fun k' e' hk' => ?_⟩
  have hle := List.le_of_mem_argmin ((hmem k' e').mpr hk') h
  exact hle

theorem oldest_eq_none (h : s.oldest iter = none) : s.entries.toList = [] := by
  have hnil := List.argmin_eq_none.mp h
  have hperm := iter.perm s.entries
  rw [hnil] at hperm
  exact hperm.nil_eq.symm

theorem evict_succ : evict iter (n + 1) s =
    if cacheMaxEntries < s.entries.size ∨ cacheMaxTotalBytes < s.total_bytes then
      match s.oldest iter with
      | some e => evict iter n (s.remove e.1)
      | none => s
    else s := rfl

/-- In as many rounds as there are entries, the loop ends within the limits. -/
theorem sound_evict (hs : s.Counted) (hn : s.entries.size ≤ n) : (s.evict iter n).Sound := by
  induction n generalizing s with
  | zero =>
    have hempty : s.entries.toList = [] := by
      rw [← List.length_eq_zero_iff, Std.ExtTreeMap.length_toList]
      omega
    refine ⟨hn.trans (Nat.zero_le _), ?_, hs⟩
    have hzero : s.total_bytes = 0 := by
      rw [hs, hempty]
      rfl
    exact hzero.trans_le (Nat.zero_le _)
  | succ n ih =>
    rw [evict_succ]
    split_ifs with hfull
    · cases hold : s.oldest iter with
      | none =>
        -- an empty store is within the limits
        have hempty := oldest_eq_none hold
        have hsize : s.entries.size = 0 := by
          rw [← Std.ExtTreeMap.length_toList, hempty]
          rfl
        have hzero : s.total_bytes = 0 := by
          rw [hs, hempty]
          rfl
        rw [hsize, hzero] at hfull
        exact absurd hfull (by decide)
      | some e =>
        have hsize := size_remove (oldest_spec hold).1
        exact ih (hs.remove e.1) (by omega)
    · rw [not_or, not_lt, not_lt] at hfull
      exact ⟨hfull.1, hfull.2, hs⟩

/-- What is left was there before. -/
theorem evict_sub (h : (s.evict iter n).entries[k]? = some e) : s.entries[k]? = some e := by
  induction n generalizing s with
  | zero => exact h
  | succ n ih =>
    rw [evict_succ] at h
    split_ifs at h
    · cases hold : s.oldest iter with
      | none =>
        rw [hold] at h
        exact h
      | some old =>
        rw [hold] at h
        have hleft := ih h
        rw [getElem?_remove] at hleft
        split_ifs at hleft
        exact hleft
    · exact h

/-- An entry stays, or it is gone and none that stays is older. -/
theorem evict_oldest (h : s.entries[k]? = some e) :
    (s.evict iter n).entries[k]? = some e ∨ (s.evict iter n).entries[k]? = none ∧
      ∀ (k' : String) (e' : CacheEntry), (s.evict iter n).entries[k']? = some e' →
        e.stored_at_ms ≤ e'.stored_at_ms := by
  induction n generalizing s with
  | zero => exact .inl h
  | succ n ih =>
    rw [evict_succ]
    split_ifs
    · cases hold : s.oldest iter with
      | none => exact .inl h
      | some old =>
        obtain ⟨k₀, e₀⟩ := old
        obtain ⟨hold, hmin⟩ := oldest_spec hold
        dsimp only
        by_cases hk : k₀ = k
        · subst hk
          obtain rfl := Option.some.inj (hold.symm.trans h)
          have hsub : ∀ (k' : String) (e' : CacheEntry),
              (evict iter n (s.remove k₀)).entries[k']? = some e' → k₀ ≠ k' ∧ s.entries[k']? = some e' := by
            intro k' e' hk'
            have hleft := evict_sub hk'
            rw [getElem?_remove] at hleft
            split_ifs at hleft with hne
            exact ⟨hne, hleft⟩
          refine .inr ⟨?_, fun k' e' hk' => hmin k' e' (hsub k' e' hk').2⟩
          cases hk₀ : (evict iter n (s.remove k₀)).entries[k₀]? with
          | none => rfl
          | some e' => exact absurd rfl (hsub k₀ e' hk₀).1
        · refine ih ?_
          rw [getElem?_remove, if_neg hk]
          exact h
    · exact .inl h

/-! ## Putting -/

theorem Sound.put (hs : s.Sound) (iter : Iteration) (key : String) (entry : CacheEntry) :
    (s.put iter key entry).Sound := by
  unfold CacheStore.put
  split_ifs with hlarge
  · exact hs
  · exact sound_evict (Counted.insert hs.counted hs.bytes (not_lt.mp hlarge)) le_rfl

/-- What is found after a put is the new entry, or was there before under another key. -/
theorem put_sub (h : (s.put iter key entry).entries[k]? = some e) :
    key = k ∧ entry.body.length ≤ cacheMaxTotalBytes ∧ e = entry ∨
      (key = k → cacheMaxTotalBytes < entry.body.length) ∧ s.entries[k]? = some e := by
  unfold CacheStore.put at h
  split_ifs at h with hlarge
  · exact .inr ⟨fun _ => hlarge, h⟩
  · have hleft := evict_sub h
    rw [getElem?_insert] at hleft
    split_ifs at hleft with hk
    · exact .inl ⟨hk, not_lt.mp hlarge, (Option.some.inj hleft).symm⟩
    · exact .inr ⟨fun hk' => absurd hk' hk, hleft⟩

theorem put_other (hk : key ≠ k) (h : s.entries[k]? = some e) :
    (s.put iter key entry).entries[k]? = some e ∨ (s.put iter key entry).entries[k]? = none ∧
      ∀ (k' : String) (e' : CacheEntry), (s.put iter key entry).entries[k']? = some e' →
        e.stored_at_ms ≤ e'.stored_at_ms := by
  unfold CacheStore.put
  split_ifs with hlarge
  · exact .inl h
  · refine evict_oldest ?_
    rw [getElem?_insert, if_neg hk]
    exact h

end CacheStore

/-! ## Keys -/

/-- Two lists are cut at the first place of a separator. -/
theorem cut_inj {α : Type} {c : α} {a a' b b' : List α} (h : a ++ c :: b = a' ++ c :: b') (ha : c ∉ a)
    (ha' : c ∉ a') : a = a' ∧ b = b' := by
  induction a generalizing a' with
  | nil =>
    cases a' with
    | nil => exact ⟨rfl, (List.cons.inj h).2⟩
    | cons d a' => exact absurd ((List.cons.inj h).1 ▸ List.mem_cons_self) ha'
  | cons d a ih =>
    cases a' with
    | nil => exact absurd ((List.cons.inj h).1 ▸ List.mem_cons_self) ha
    | cons d' a' =>
      obtain ⟨rfl, htail⟩ := List.cons.inj h
      rw [List.mem_cons, not_or] at ha ha'
      obtain ⟨rfl, hb⟩ := ih htail ha.2 ha'.2
      exact ⟨rfl, hb⟩

theorem bar_notMem_toDigits (n : Nat) : '|' ∉ Nat.toDigits 16 n := by
  have hdigit : ∀ m, m < 16 → Nat.digitChar m ≠ '|' := by decide
  induction n using Nat.strong_induction_on with
  | _ n ih =>
    rw [Nat.toDigits_eq_if (by decide)]
    split_ifs with hn
    · rw [List.mem_singleton]
      exact (hdigit n hn).symm
    · rw [List.mem_append, List.mem_singleton, not_or]
      exact ⟨ih (n / 16) (by omega), (hdigit _ (Nat.mod_lt n (by decide))).symm⟩

/-- Requests with one key ask for the same on behalf of the same caller, unless a name has the
    separator. -/
theorem CachedRequest.key_inj {r r' : CachedRequest} (h : r.key = r'.key)
    (hr : '|' ∉ r.caller_plugin_id.toList ∧ '|' ∉ r.method.toList)
    (hr' : '|' ∉ r'.caller_plugin_id.toList ∧ '|' ∉ r'.method.toList) :
    r.caller_plugin_id = r'.caller_plugin_id ∧ r.method = r'.method ∧ r.url = r'.url := by
  unfold key at h
  obtain ⟨hcaller, h⟩ := cut_inj (String.ofList_injective h) hr.1 hr'.1
  obtain ⟨hmethod, h⟩ := cut_inj h hr.2 hr'.2
  refine ⟨String.toList_injective hcaller, String.toList_injective hmethod, String.toList_injective ?_⟩
  -- the digits of the hash come after the last separator
  have hdigits : ∀ n, '|' ∉ (Nat.toDigits 16 n).reverse := fun n hmem =>
    bar_notMem_toDigits n (List.mem_reverse.mp hmem)
  have hrev := congrArg List.reverse h
  rw [List.reverse_append, List.reverse_append, List.reverse_cons, List.reverse_cons,
    List.append_assoc, List.append_assoc] at hrev
  obtain ⟨-, hurl⟩ := cut_inj hrev (hdigits _) (hdigits _)
  exact List.reverse_injective hurl

/-! ## Runs -/

variable {requests : Nat → CachedRequest} {w w' : CacheWorld} {trace earlier later : List CacheLabel}
  {i now_ms : Nat} {iter : Iteration} {k : String} {entry e : CacheEntry}

/-- A step leaves the store as it is, or puts into it what its label says. -/
theorem stored_of_step {l : CacheLabel} (h : w.step requests l = some w') :
    (w'.store = w.store ∧ l.stored requests = none) ∨
      ∃ (i now_ms : Nat) (iter : Iteration) (resp : Fetched) (entry : CacheEntry),
        l = .fetched i now_ms iter (.ok resp) ∧ resp.entry (requests i) now_ms = some entry ∧
          w'.store = w.store.put iter (requests i).key entry := by
  cases l with
  | hit i now_ms entry => exact .inl ⟨(CacheWorld.step_hit h).2, rfl⟩
  | miss i now_ms => exact .inl ⟨CacheWorld.step_miss h, rfl⟩
  | fetched i now_ms iter result =>
    have hstore := CacheWorld.step_fetched h
    cases result with
    | error err => exact .inl ⟨hstore, rfl⟩
    | ok resp =>
      unfold CacheWorld.store_response at hstore
      unfold CacheLabel.stored
      dsimp only at hstore ⊢
      cases hentry : resp.entry (requests i) now_ms with
      | none =>
        rw [hentry] at hstore
        exact .inl ⟨hstore, rfl⟩
      | some entry =>
        rw [hentry] at hstore
        exact .inr ⟨i, now_ms, iter, resp, entry, rfl, hentry, hstore⟩

theorem stored_eq {resp : Fetched} (h : resp.entry (requests i) now_ms = some entry) :
    (CacheLabel.fetched i now_ms iter (.ok resp)).stored requests =
      if entry.body.length ≤ cacheMaxTotalBytes then some ((requests i).key, entry) else none := by
  unfold CacheLabel.stored
  dsimp only
  rw [h]
  split_ifs with hle
  · simp [Option.filter, hle]
  · simp [Option.filter, hle]

theorem latest_cons (l : CacheLabel) : latest requests k (l :: trace) =
    ((l.stored requests).bind fun put => if put.1 = k then some put.2 else none).or
      (latest requests k trace) := by
  unfold latest
  rw [List.findSome?_cons]
  split <;> simp [*]

/-- What is found was put there last. -/
theorem latest_of_entry (hrun : Run (fun w l w' => w.step requests l = some w') {} trace w)
    (h : w.store.entries[k]? = some e) : latest requests k trace = some e := by
  have hinv := hrun.invariant (I := fun trace w => ∀ (k : String) (e : CacheEntry),
    w.store.entries[k]? = some e → latest requests k trace = some e) ?_ ?_
  · exact hinv k e h
  · intro k e hk
    simp at hk
  · intro trace w l w' hI hstep k e hk
    rw [latest_cons]
    obtain ⟨hstore, hnone⟩ | ⟨i, now_ms, iter, resp, entry, rfl, hentry, hstore⟩ := stored_of_step hstep
    · rw [hnone, Option.bind_none, Option.none_or]
      rw [hstore] at hk
      exact hI k e hk
    · rw [hstore] at hk
      rw [stored_eq hentry]
      obtain ⟨rfl, hfits, rfl⟩ | ⟨hother, hk⟩ := CacheStore.put_sub hk
      · rw [if_pos hfits, Option.bind_some, if_pos rfl, Option.some_or]
      · split_ifs with hfits
        · rw [Option.bind_some, if_neg fun hkey => absurd (hother hkey) (not_lt.mpr hfits),
            Option.none_or]
          exact hI k e hk
        · rw [Option.bind_none, Option.none_or]
          exact hI k e hk

/-- The step that has put an entry. -/
theorem mem_of_latest (h : latest requests k trace = some e) :
    ∃ (i now_ms : Nat) (iter : Iteration) (resp : Fetched),
      .fetched i now_ms iter (.ok resp) ∈ trace ∧ resp.entry (requests i) now_ms = some e ∧
        (requests i).key = k := by
  obtain ⟨l, hl, hput⟩ := List.exists_of_findSome?_eq_some h
  obtain ⟨put, hstored, hput⟩ := Option.bind_eq_some_iff.mp hput
  split_ifs at hput with hkey
  obtain rfl := Option.some.inj hput
  cases l with
  | hit => cases hstored
  | miss => cases hstored
  | fetched i now_ms iter result =>
    cases result with
    | error => cases hstored
    | ok resp =>
      obtain ⟨entry, hentry, rfl⟩ := Option.map_eq_some_iff.mp hstored
      exact ⟨i, now_ms, iter, resp, hl, (Option.filter_eq_some_iff.mp hentry).1, hkey⟩

/-- In every run the cache keeps to its limits and its counter is exact; and what a response displaces
    under another key is no younger than anything that stays. -/
theorem cache_is_bounded (hrun : Run (fun w l w' => w.step requests l = some w') {} trace w) :
    w.store.Sound ∧ ∀ (i now_ms : Nat) (iter : Iteration) (result : Except String Fetched) (w' : CacheWorld),
      w.step requests (.fetched i now_ms iter result) = some w' →
      ∀ (k : String) (e : CacheEntry), k ≠ (requests i).key → w.store.entries[k]? = some e →
        w'.store.entries[k]? = some e ∨ w'.store.entries[k]? = none ∧
          ∀ (k' : String) (e' : CacheEntry), w'.store.entries[k']? = some e' →
            e.stored_at_ms ≤ e'.stored_at_ms := by
  constructor
  · have hempty : (CacheWorld.mk {} fun _ => .received).store.Sound :=
      ⟨Nat.zero_le _, Nat.zero_le _, rfl⟩
    refine hrun.invariant_state (I := fun w => w.store.Sound) hempty fun w l w' hs hstep => ?_
    obtain ⟨hstore, -⟩ | ⟨i, now_ms, iter, resp, entry, -, -, hstore⟩ := stored_of_step hstep
    · rw [hstore]
      exact hs
    · rw [hstore]
      exact hs.put iter _ entry
  · intro i now_ms iter result w' hstep k e hk hentry
    obtain ⟨hstore, -⟩ | ⟨j, _, iter', _, entry, hl, -, hstore⟩ := stored_of_step hstep
    · rw [hstore]
      exact .inl hentry
    · obtain ⟨rfl, -⟩ := CacheLabel.fetched.inj hl
      rw [hstore]
      exact CacheStore.put_other (Ne.symm hk) hentry

def pageRequest : CachedRequest where
  caller_plugin_id := "rss"
  method := "GET"
  url := "https://x/"
  body_hash := 26
  cache_ttl_ms := 1000

def page : Fetched where
  status := 200
  headers := []
  body := some [111, 107]
  body_encoding := "utf8"

def pageEntry : CacheEntry where
  stored_at_ms := 6
  expires_at_ms := 1006
  status := 200
  headers := []
  body := [111, 107]
  body_encoding := "utf8"

def inKeyOrder : Iteration := ⟨fun t => t.toList, fun _ => .refl _⟩

/-- A response is fetched, and answers another request. -/
def twoLooks : List CacheLabel :=
  [.miss 0 5, .fetched 0 6 inKeyOrder (.ok page), .hit 1 7 pageEntry]

theorem cache_is_bounded_sample : ∃ w : CacheWorld, w.store.Sound ∧ w.store.total_bytes = 2 := by
  have hsome : ((runWhere (fun _ _ => True) (CacheWorld.step fun _ => pageRequest) {} twoLooks).any
      fun w => w.store.total_bytes = 2) = true := by
    decide
  obtain ⟨w, hw, hbytes⟩ := (Option.any_eq_true _ _).mp hsome
  have hrun := (run_of_runWhere .start hw).mono fun _ _ _ h => h.1
  exact ⟨w, (cache_is_bounded hrun).1, of_decide_eq_true hbytes⟩

/-- In every run a request is answered from the cache with what was last put there under its key: a
    response that could be kept and has not expired, and one to the same request of the same caller,
    unless a name has the separator of the keys. -/
theorem hits_are_the_latest
    (hrun : Run (fun w l w' => w.step requests l = some w') {} (later ++ .hit i now_ms entry :: earlier) w) :
    latest requests (requests i).key earlier = some entry ∧ now_ms ≤ entry.expires_at_ms ∧
      ∃ (j now_ms' : Nat) (iter : Iteration) (resp : Fetched),
        .fetched j now_ms' iter (.ok resp) ∈ earlier ∧ resp.entry (requests j) now_ms' = some entry ∧
        ('|' ∉ (requests i).caller_plugin_id.toList ∧ '|' ∉ (requests i).method.toList →
          '|' ∉ (requests j).caller_plugin_id.toList ∧ '|' ∉ (requests j).method.toList →
          (requests j).caller_plugin_id = (requests i).caller_plugin_id ∧
            (requests j).method = (requests i).method ∧ (requests j).url = (requests i).url) := by
  obtain ⟨w₁, hrun₁⟩ := hrun.earlier
  cases hrun₁ with
  | step hrun₀ hstep =>
    obtain ⟨-, hlookup⟩ := Option.ite_none_right_eq_some.mp (CacheWorld.step_hit hstep).1
    obtain ⟨hentry, hnow⟩ := Option.filter_eq_some_iff.mp hlookup
    have hlatest := latest_of_entry hrun₀ hentry
    obtain ⟨j, now_ms', iter, resp, hmem, hresp, hkey⟩ := mem_of_latest hlatest
    exact ⟨hlatest, of_decide_eq_true hnow, j, now_ms', iter, resp, hmem, hresp,
      fun hi hj => CachedRequest.key_inj hkey hj hi⟩

theorem hits_are_the_latest_sample :
    latest (fun _ => pageRequest) pageRequest.key (twoLooks.take 2).reverse = some pageEntry := by
  have hsome : (runWhere (fun _ _ => True) (CacheWorld.step fun _ => pageRequest) {} twoLooks).isSome
      = true := by
    decide
  obtain ⟨w, hw⟩ := Option.isSome_iff_exists.mp hsome
  have hrun : Run (fun w l w' => w.step (fun _ => pageRequest) l = some w') {}
      ([] ++ .hit 1 7 pageEntry :: (twoLooks.take 2).reverse) w :=
    (run_of_runWhere .start hw).mono fun _ _ _ h => h.1
  exact (hits_are_the_latest hrun).1

end Network
