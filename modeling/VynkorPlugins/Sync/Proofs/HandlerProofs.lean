import VynkorPlugins.Sync.Handler

/-!
# The delta log of the `sync` host

Each call either leaves the store alone or extends its history by exactly the deltas it returns, but
for one case: a snapshot that fails after it has pruned stale heartbeats.
-/

namespace Sync

open Rust VersionedLog

/-- Replays a delta: `set` inserts the row it stands for, `del` removes it. -/
def replayDelta (state : Table String Row) (d : Delta) : Table String Row :=
  if d.op = "set" then
    state.insert d.key { value := (jsonOption d.value).print, updated_at := d.updated_at }
  else if d.op = "del" then state.erase d.key
  else state

/-- The state table and the version of a store. -/
def Store.at (s : Store) : Table String Row × Nat := (s.state, s.version)

/-- The deltas are the history between two stores. -/
def Logs (s : Store) (deltas : List Delta) (s' : Store) : Prop :=
  Extends replayDelta Delta.version s.at deltas s'.at

theorem Logs.append {s s' s'' : Store} {ds es : List Delta} (h : Logs s ds s')
    (h' : Logs s' es s'') : Logs s (ds ++ es) s'' :=
  Extends.append h h'

theorem Logs.version_eq {s s' : Store} {ds : List Delta} (h : Logs s ds s') :
    s'.version = s.version + ds.length :=
  (extends_iff.mp h).2.1

/-! ## The statements of a transaction -/

theorem exec_bumpVersion (s : Store) :
    bumpVersion.exec s =
      if h : s.version < i64Max then
        .ok (s.version + 1, { s with version := s.version + 1, version_le := h })
      else .error ("corrupt version meta value \"9.22337203685478e+18\": " ++
        "invalid digit found in string") := by
  rw [bumpVersion, Tx.exec_bind, Tx.exec_get]
  by_cases h : s.version < i64Max
  · simp only [h, dif_pos]; rfl
  · simp only [h, dif_neg, not_false_eq_true]; rfl

theorem exec_deleteRow (key : String) (s : Store) :
    (deleteRow key).exec s =
      .ok (s.state.contains key, { s with state := s.state.erase key }) := rfl

theorem exec_upsertRow (key : String) (row : Row) (s : Store) :
    (upsertRow key row).exec s = .ok (⟨⟩, { s with state := s.state.insert key row }) := rfl

/-- One pruned row is one delta of the history. -/
theorem exec_pruneRow (now_ms : Int) (key : String) (s : Store) :
    match (pruneRow now_ms key).exec s with
    | .ok (d, s') => Logs s [d] s' ∧ s'.state = s.state.erase key
    | .error _ => i64Max < s.version + 1 := by
  rw [pruneRow, Tx.exec_bind, exec_deleteRow]
  simp only
  rw [Tx.exec_bind, exec_bumpVersion]
  by_cases h : s.version < i64Max
  · simp only [h, dif_pos, Tx.exec_pure]
    exact ⟨Extends.single rfl, trivial⟩
  · simp only [h, dif_neg, not_false_eq_true]
    omega

/-- The pruned rows are a piece of the history; the transaction fails only when the version has no
    room for it. -/
theorem exec_pruneRows (now_ms : Int) (keys : List String) (s : Store) :
    match Tx.exec (keys.mapM (pruneRow now_ms)) s with
    | .ok (ds, s') => Logs s ds s' ∧ ds.length = keys.length ∧ s'.state = s.state.eraseAll keys
    | .error _ => i64Max < s.version + keys.length := by
  induction keys generalizing s with
  | nil => exact ⟨.nil _, rfl, rfl⟩
  | cons key keys ih =>
    rw [List.mapM_cons, Tx.exec_bind]
    have hrow := exec_pruneRow now_ms key s
    cases hx : (pruneRow now_ms key).exec s with
    | error e =>
      rw [hx] at hrow
      simp only [List.length_cons] at hrow ⊢
      omega
    | ok p =>
      obtain ⟨d, s1⟩ := p
      rw [hx] at hrow
      obtain ⟨hlog, hstate⟩ := hrow
      have hv := hlog.version_eq
      have hrest := ih s1
      simp only
      rw [Tx.exec_bind]
      cases hy : Tx.exec (keys.mapM (pruneRow now_ms)) s1 with
      | error e =>
        rw [hy] at hrest
        simp only [List.length_cons, List.length_nil] at hrest hv ⊢
        omega
      | ok q =>
        obtain ⟨ds, s2⟩ := q
        rw [hy] at hrest
        obtain ⟨hlogs, hlen, hstates⟩ := hrest
        refine ⟨hlog.append hlogs, ?_, ?_⟩
        · rw [List.length_cons, hlen, List.length_cons]
        · rw [hstates, hstate]; rfl

/-- What `prune_heartbeats` does to a store. -/
theorem exec_pruneHeartbeats (ttl : Nat) (now_ms : Int) (s : Store) :
    match (pruneHeartbeats ttl now_ms).exec s with
    | .ok (ds, s') => Logs s ds s' ∧ ds.length = (prunedKeys ttl now_ms s.state).length ∧
        s'.state = s.state.eraseAll (prunedKeys ttl now_ms s.state)
    | .error _ => i64Max < s.version + (prunedKeys ttl now_ms s.state).length := by
  rw [pruneHeartbeats, Tx.exec_bind, Tx.exec_get]
  exact exec_pruneRows now_ms _ s

/-! ## The snapshot -/

/-- The values of the rows of a table, without the corrupt ones. -/
def snapshotState (serde : Serde) (rows : List (String × Row)) : List (String × Json) :=
  rows.filterMap fun r => (serde.fromStr r.2.value).toOption.map fun v => (r.1, v)

theorem parseRows_cons (serde : Serde) (row : String × Row) (rows : List (String × Row)) :
    parseRows serde (row :: rows) =
      match parseRow serde row, parseRows serde rows with
      | .error e, _ => .error e
      | .ok _, .error e => .error e
      | .ok x, .ok xs => .ok (x :: xs) := by
  unfold parseRows
  rw [List.mapM_cons]
  cases parseRow serde row with
  | error e => rfl
  | ok x => cases List.mapM (parseRow serde) rows <;> rfl

/-- Rows that are read back give the state of the snapshot, and a corrupt one an error. -/
theorem parseRows_cases (serde : Serde) (rows : List (String × Row)) :
    match parseRows serde rows with
    | .ok state => (∀ r ∈ rows, (serde.fromStr r.2.value).isOk) ∧
        state = snapshotState serde rows
    | .error _ => ∃ r ∈ rows, ¬ (serde.fromStr r.2.value).isOk := by
  induction rows with
  | nil => exact ⟨by simp, rfl⟩
  | cons r rows ih =>
    rw [parseRows_cons]
    cases hv : serde.fromStr r.2.value with
    | error e =>
      have hrow : parseRow serde r = .error ("corrupt stored value for key " ++ debug r.1 ++ ": " ++ e) := by
        rw [parseRow, hv]; rfl
      rw [hrow]
      exact ⟨r, by simp, by simp [hv, Except.isOk, Except.toBool]⟩
    | ok v =>
      have hrow : parseRow serde r = .ok (r.1, v) := by rw [parseRow, hv]; rfl
      rw [hrow]
      cases hrest : parseRows serde rows with
      | error e =>
        rw [hrest] at ih
        obtain ⟨r', hr', he⟩ := ih
        exact ⟨r', List.mem_cons_of_mem _ hr', he⟩
      | ok state =>
        rw [hrest] at ih
        obtain ⟨hok, hstate⟩ := ih
        refine ⟨fun r' hr' => ?_, ?_⟩
        · rcases List.mem_cons.mp hr' with rfl | hr'
          · simp [hv, Except.isOk, Except.toBool]
          · exact hok r' hr'
        · rw [hstate]; simp [snapshotState, hv, Except.toOption]

/-! ## The requests -/

/-- A computation whose deltas are the history of the store, and whose errors leave it alone. -/
def Complete {α : Type} (s : Store) : Except String (α × List Delta) × Store → Prop
  | (.ok (_, ds), s') => Logs s ds s'
  | (.error _, s') => s' = s

theorem handleGet_store (serde : Serde) (env : Surroundings) (key : String) (s : Store) :
    ((handleGet serde env key).exec s).2 = s := by
  rw [handleGet, Db.exec_bind]
  cases env.fault with
  | some e => rfl
  | none =>
    rw [Db.exec_transaction]
    simp only [Tx.exec_bind, Tx.exec_get, Tx.exec_pure]
    cases s.state[key]? with
    | none => rfl
    | some row =>
      simp only
      rw [Db.exec_bind, Db.exec_ofExcept]
      cases serde.fromStr row.value <;> rfl

theorem handleSet_complete (h : SyncHandler) (env : Surroundings) (key : String) (value : Json)
    (s : Store) : Complete s ((handleSet h env key value).exec s) := by
  rw [handleSet]
  by_cases hsize : h.max_value_bytes < value.print.utf8ByteSize
  · simp only [hsize, if_true, Db.exec_bind, Db.exec_throw]
    rfl
  · simp only [hsize, if_false, Db.exec_bind, Db.exec_pure]
    cases hf : env.fault with
    | some e => rfl
    | none =>
      rw [Db.exec_transaction, Tx.exec_bind]
      have hprune := exec_pruneHeartbeats h.heartbeat_ttl_secs env.prune_now_ms s
      cases hp : (pruneHeartbeats h.heartbeat_ttl_secs env.prune_now_ms).exec s with
      | error e => rfl
      | ok p =>
        obtain ⟨ds, s1⟩ := p
        rw [hp] at hprune
        simp only [Tx.exec_bind, exec_upsertRow, exec_bumpVersion]
        by_cases hv : s1.version < i64Max
        · simp only [hv, dif_pos, Tx.exec_pure]
          exact hprune.1.append (Extends.single rfl)
        · simp only [hv, dif_neg, not_false_eq_true]
          rfl

theorem handleDel_complete (env : Surroundings) (key : String) (s : Store) :
    Complete s ((handleDel env key).exec s) := by
  rw [handleDel, Db.exec_bind]
  cases hf : env.fault with
  | some e => rfl
  | none =>
    rw [Db.exec_transaction, Tx.exec_bind, exec_deleteRow]
    cases hc : s.state.contains key with
    | true =>
      simp only [if_true, Tx.exec_bind, exec_bumpVersion]
      by_cases hv : s.version < i64Max
      · simp only [hv, dif_pos, Tx.exec_pure, Db.exec_pure]
        exact Extends.single rfl
      · simp only [hv, dif_neg, not_false_eq_true]
        rfl
    | false =>
      -- there was no row, so the table without it is the table
      have herase : s.state.erase key = s.state := by
        refine Std.ExtTreeMap.ext_getElem? fun k => ?_
        rw [Std.ExtTreeMap.getElem?_erase]
        by_cases hk : key = k
        · subst hk
          simp [Std.ExtTreeMap.getElem?_eq_none_of_contains_eq_false hc]
        · simp [hk]
      rw [herase]
      exact Extends.nil s.at

/-- A snapshot is refused: one of its rows is corrupt, or its text is too long. -/
def SnapshotRefused (serde : Serde) (h : SyncHandler) (version : Nat)
    (rows : List (String × Row)) : Prop :=
  (∃ r ∈ rows, ¬ (serde.fromStr r.2.value).isOk) ∨
    h.max_response_bytes < (snapshotJson version (snapshotState serde rows)).toVec.size

/-- A snapshot commits the removal of stale heartbeats and is refused afterwards: their deltas are
    lost. -/
def LosesPruned (serde : Serde) (h : SyncHandler) (env : Surroundings) (s : Store) : Prop :=
  let keys := prunedKeys h.heartbeat_ttl_secs env.prune_now_ms s.state
  env.fault = none ∧ keys ≠ [] ∧ s.version + keys.length ≤ i64Max ∧
    SnapshotRefused serde h (s.version + keys.length) (s.state.eraseAll keys).toList

instance (serde : Serde) (h : SyncHandler) (version : Nat) (rows : List (String × Row)) :
    Decidable (SnapshotRefused serde h version rows) :=
  inferInstanceAs (Decidable (_ ∨ _))

instance (serde : Serde) (h : SyncHandler) (env : Surroundings) (s : Store) :
    Decidable (LosesPruned serde h env s) :=
  inferInstanceAs (Decidable (_ ∧ _ ∧ _ ∧ _))

/-- A snapshot is complete, unless it loses what it has pruned; then it fails in a later store. -/
theorem handleSnapshot_cases (serde : Serde) (h : SyncHandler) (env : Surroundings) (s : Store) :
    (¬ LosesPruned serde h env s ∧ Complete s ((handleSnapshot serde h env).exec s)) ∨
      (LosesPruned serde h env s ∧ ∃ e s', (handleSnapshot serde h env).exec s = (.error e, s') ∧
        s.version < s'.version) := by
  rw [handleSnapshot, Db.exec_bind]
  cases hf : env.fault with
  | some e => exact .inl ⟨fun hl => by simp [hl.1] at hf, rfl⟩
  | none =>
    rw [Db.exec_transaction, Tx.exec_bind]
    have hprune := exec_pruneHeartbeats h.heartbeat_ttl_secs env.prune_now_ms s
    set keys := prunedKeys h.heartbeat_ttl_secs env.prune_now_ms s.state with hkeys
    cases hp : (pruneHeartbeats h.heartbeat_ttl_secs env.prune_now_ms).exec s with
    | error e =>
      rw [hp] at hprune
      refine .inl ⟨fun hl => ?_, rfl⟩
      have := hl.2.2.1
      simp only [← hkeys] at this hprune
      omega
    | ok p =>
      obtain ⟨ds, s1⟩ := p
      rw [hp] at hprune
      obtain ⟨hlog, hlen, hstate⟩ := hprune
      have hversion : s1.version = s.version + keys.length := hlen ▸ hlog.version_eq
      simp only [readVersion, Tx.exec_bind, Tx.exec_get, Tx.exec_pure, Db.exec_bind,
        Db.exec_ofExcept]
      -- refused or not, the removals are committed
      have hrefused : ∀ e, SnapshotRefused serde h s1.version s1.state.toList →
          (¬ LosesPruned serde h env s ∧
            Complete (α := Json) s ((.error e, s1) : Except String (Json × List Delta) × Store)) ∨
          (LosesPruned serde h env s ∧ ∃ e' s', ((.error e, s1) :
            Except String (Json × List Delta) × Store) = (.error e', s') ∧ s.version < s'.version) := by
        intro e hr
        by_cases hne : keys = []
        · have hs : s1 = s := by
            have hds : ds = [] := List.eq_nil_of_length_eq_zero (by rw [hlen, hne]; rfl)
            subst hds
            have := (extends_iff.mp hlog).2
            exact Store.ext this.2.symm this.1
          exact .inl ⟨fun hl => hl.2.1 hne, hs⟩
        · refine .inr ⟨⟨hf, hne, ?_, ?_⟩, e, s1, rfl, ?_⟩
          · show s.version + keys.length ≤ i64Max
            exact hversion ▸ s1.version_le
          · rw [← hkeys, ← hversion, ← hstate]; exact hr
          · have := List.length_pos_iff.mpr hne; omega
      have hrows := parseRows_cases serde s1.state.toList
      cases hparse : parseRows serde s1.state.toList with
      | error e =>
        rw [hparse] at hrows
        exact hrefused e (.inl hrows)
      | ok state =>
        rw [hparse] at hrows
        obtain ⟨hok, rfl⟩ := hrows
        simp only
        by_cases hsize : h.max_response_bytes <
            (snapshotJson s1.version (snapshotState serde s1.state.toList)).toVec.size
        · simp only [hsize, if_true, Db.exec_bind, Db.exec_throw]
          exact hrefused _ (.inr hsize)
        · simp only [hsize, if_false, Db.exec_pure]
          refine .inl ⟨fun hl => ?_, hlog⟩
          have hr := hl.2.2.2
          rw [← hkeys, ← hversion, ← hstate] at hr
          rcases hr with ⟨r, hr, hcorrupt⟩ | hr
          · exact hcorrupt (hok r hr)
          · exact hsize hr

/-- The call is a snapshot that loses what it has pruned. -/
def CallLosesPruned (serde : Serde) (h : SyncHandler) (env : Surroundings)
    (caller_plugin_id action : String) (s : Store) : Prop :=
  caller_plugin_id ≠ "" ∧ action = "sync_get_snapshot" ∧ LosesPruned serde h env s

instance (serde : Serde) (h : SyncHandler) (env : Surroundings)
    (caller_plugin_id action : String) (s : Store) :
    Decidable (CallLosesPruned serde h env caller_plugin_id action s) :=
  inferInstanceAs (Decidable (_ ∧ _ ∧ _))

theorem bind_ne_ok {α β : Type} {x : Except String α} {f : α → Except String β} {b : β}
    (h : ∀ a, f a ≠ .ok b) : (x >>= f) ≠ .ok b := by
  cases x with
  | error e => exact fun he => nomatch he
  | ok a => exact h a

/-- Only one action is a snapshot. -/
theorem parseRequest_snapshot {serde : Serde} {action : String} {params_json : ByteArray}
    (h : parseRequest serde action params_json = .ok .snapshot) : action = "sync_get_snapshot" := by
  by_contra ha
  rw [parseRequest, if_neg ha] at h
  have hkey : ∀ (key : String) (f : String → SyncRequest), (∀ k, f k ≠ .snapshot) →
      (requireNonemptyKey key >>= fun k => pure (f k)) ≠ .ok .snapshot :=
    fun key f hf => bind_ne_ok fun k he => hf k (Except.ok.inj he)
  split_ifs at h
  · exact bind_ne_ok (fun key => hkey key _ (by simp)) h
  · exact bind_ne_ok (fun (p : String × Json) => hkey p.1 (.set · p.2) (by simp)) h
  · exact bind_ne_ok (fun key => hkey key _ (by simp)) h

/-- A complete request gives a complete call. -/
theorem Complete.encode {s : Store} {m : Db Store (Json × List Delta)} (h : Complete s (m.exec s)) :
    Complete s (Db.exec (do let (result, deltas) ← m; return (result.toVec, deltas)) s) := by
  rw [Db.exec_bind]
  rcases hm : m.exec s with ⟨e | ⟨result, deltas⟩, s'⟩
  · rw [hm] at h; exact h
  · rw [hm] at h; exact h

/-- A call is complete, unless it loses what it has pruned; then it fails in a later store. -/
theorem handle_cases (serde : Serde) (h : SyncHandler) (env : Surroundings)
    (caller_plugin_id action : String) (params_json : ByteArray) (s : Store) :
    (¬ CallLosesPruned serde h env caller_plugin_id action s ∧
      Complete s ((handle serde h env caller_plugin_id action params_json).exec s)) ∨
    (CallLosesPruned serde h env caller_plugin_id action s ∧
      ∃ e s', (handle serde h env caller_plugin_id action params_json).exec s = (.error e, s') ∧
        s.version < s'.version) := by
  rw [handle]
  by_cases hcaller : caller_plugin_id = ""
  · simp only [hcaller, if_true, Db.exec_bind, Db.exec_throw]
    exact .inl ⟨fun hl => hl.1 rfl, rfl⟩
  simp only [hcaller, if_false, Db.exec_bind, Db.exec_ofExcept]
  cases hreq : parseRequest serde action params_json with
  | error e =>
    refine .inl ⟨fun hl => ?_, rfl⟩
    rw [hl.2.1, parseRequest, if_pos rfl] at hreq
    cases hreq
  | ok req =>
    have hother : req ≠ .snapshot → ¬ CallLosesPruned serde h env caller_plugin_id action s := by
      intro hne hl
      rw [hl.2.1, parseRequest, if_pos rfl] at hreq
      exact hne (Except.ok.inj hreq).symm
    cases req with
    | snapshot =>
      have haction := parseRequest_snapshot hreq
      rcases handleSnapshot_cases serde h env s with ⟨hn, hc⟩ | ⟨hl, e, s', he, hlt⟩
      · exact .inl ⟨fun hl => hn hl.2.2, by simpa only [Db.exec_bind] using hc.encode⟩
      · refine .inr ⟨⟨hcaller, haction, hl⟩, e, s', ?_, hlt⟩
        simp only [Db.exec_bind, he]
    | get key =>
      refine .inl ⟨hother (by simp), ?_⟩
      have hget := handleGet_store serde env key s
      rcases hm : (handleGet serde env key).exec s with ⟨e | v, s'⟩
      · rw [hm] at hget
        simp only [Db.exec_bind, hm]
        exact hget
      · rw [hm] at hget
        simp only [Db.exec_bind, hm, Db.exec_pure]
        obtain rfl : s' = s := hget
        exact Extends.nil s'.at
    | set key value =>
      exact .inl ⟨hother (by simp),
        by simpa only [Db.exec_bind] using (handleSet_complete h env key value s).encode⟩
    | del key =>
      exact .inl ⟨hother (by simp),
        by simpa only [Db.exec_bind] using (handleDel_complete env key s).encode⟩

/-! ## The delta log -/

/-- The log of a call is complete and gap-free: the deltas of a call that succeeds carry the
    versions after the old one, one by one, and replay the old state to the new one; a call that
    fails leaves the state and the version alone. -/
def DeltaLogComplete (s : Store) (result : Except String (ByteArray × List Delta)) (s' : Store) :
    Prop :=
  (∀ response deltas, result = .ok (response, deltas) →
    deltas.map Delta.version = List.range' (s.version + 1) deltas.length ∧
      s'.version = s.version + deltas.length ∧ deltas.foldl replayDelta s.state = s'.state) ∧
  (∀ e, result = .error e → s'.state = s.state ∧ s'.version = s.version)

/-- The log of a call is complete exactly when the call is not a snapshot that is refused after it
    has committed the removal of stale heartbeats. -/
theorem deltaLogComplete_iff (serde : Serde) (h : SyncHandler) (env : Surroundings)
    (caller_plugin_id action : String) (params_json : ByteArray) (s : Store) :
    let call := (handle serde h env caller_plugin_id action params_json).exec s
    DeltaLogComplete s call.1 call.2 ↔ ¬ CallLosesPruned serde h env caller_plugin_id action s := by
  intro call
  rcases handle_cases serde h env caller_plugin_id action params_json s with
    ⟨hn, hc⟩ | ⟨hl, e, s', he, hlt⟩
  · refine iff_of_true ?_ hn
    change Complete s call at hc
    rcases hcall : call with ⟨e | ⟨response, deltas⟩, s'⟩
    · rw [hcall] at hc
      obtain rfl : s' = s := hc
      exact ⟨fun _ _ hr => (nomatch hr), fun _ _ => ⟨rfl, rfl⟩⟩
    · rw [hcall] at hc
      refine ⟨fun _ _ hr => ?_, fun _ hr => (nomatch hr)⟩
      cases hr
      exact extends_iff.mp hc
  · refine iff_of_false ?_ (fun hn => hn hl)
    intro hcomplete
    have hcall : call = (.error e, s') := he
    rw [hcall] at hcomplete
    have hversion : s'.version = s.version := (hcomplete.2 e rfl).2
    omega

/-- A store with a stale heartbeat. -/
def staleStore : Store where
  state := .ofList ([("heartbeat.a", { value := "1", updated_at := 0 }),
    ("k", { value := "\"0123456789\"", updated_at := 0 })] : List (String × Row))
  version := 2
  version_le := by decide

/-- A snapshot of it that is too long for the host: the heartbeat is removed, the version bumped,
    and the call fails. -/
theorem snapshot_loses_pruned :
    ¬ ∀ (serde : Serde) (h : SyncHandler) (env : Surroundings)
      (caller_plugin_id action : String) (params_json : ByteArray) (s : Store),
      let call := (handle serde h env caller_plugin_id action params_json).exec s
      DeltaLogComplete s call.1 call.2 := by
  intro hall
  let h : SyncHandler :=
    { max_value_bytes := 64, max_response_bytes := 32, heartbeat_ttl_secs := 300 }
  let env : Surroundings := { now_ms := 400000, prune_now_ms := 400000, fault := none }
  have hcall := hall .compact h env "sync-client" "sync_get_snapshot" .empty staleStore
  have herror : ((handle .compact h env "sync-client" "sync_get_snapshot" .empty).exec
      staleStore).1.toOption.isNone := by decide +kernel
  have hversion : ((handle .compact h env "sync-client" "sync_get_snapshot" .empty).exec
      staleStore).2.version = 3 := by decide +kernel
  cases hr : ((handle .compact h env "sync-client" "sync_get_snapshot" .empty).exec staleStore).1 with
  | error e =>
    have hsame := (hcall.2 e hr).2
    rw [hversion] at hsame
    exact absurd hsame (by decide)
  | ok r =>
    rw [hr] at herror
    cases herror

end Sync
