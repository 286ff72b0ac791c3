import Mathlib
import VynkorPlugins.Database.Handler

/-!
# The cap of the stored values

Every action but the patch measures what it stores, or stores the digits of a counter.
-/

namespace Database

open Transition

variable {sqlite : Sqlite} {serde : Serde} {config : Config} {now_ms : Int64} {fault : Option String}
  {kv kv' : Kv}

/-! ## Counters -/

/-- A digit is one byte. -/
theorem utf8Len_digits {ds : List Char} (h : ∀ c ∈ ds, c.isDigit = true) :
    String.utf8Len ds = ds.length := by
  induction ds with
  | nil => rfl
  | cons c ds ih =>
    have hdigit : 48 ≤ c.val ∧ c.val ≤ 57 := by
      have hc := h c List.mem_cons_self
      simpa [Char.isDigit] using hc
    have hone : c.utf8Size = 1 := by
      unfold Char.utf8Size
      have hsmall : c.val ≤ 127 := UInt32.le_trans hdigit.2 (by decide)
      exact if_pos hsmall
    rw [String.utf8Len_cons, ih fun d hd => h d (List.mem_cons_of_mem c hd), hone,
      List.length_cons]

theorem utf8ByteSize_nat_le {n k : Nat} (hk : 0 < k) (hn : n < 10 ^ k) :
    (toString n).utf8ByteSize ≤ k := by
  have hdigits : String.utf8Len (Nat.toDigits 10 n) = (Nat.toDigits 10 n).length :=
    utf8Len_digits fun c hc => Json.isDigit_of_mem_toDigits hc
  show (Nat.repr n).utf8ByteSize ≤ k
  rw [Nat.repr_eq_ofList_toDigits, String.utf8ByteSize_ofList, hdigits]
  exact (Nat.length_toDigits_le_iff (by omega) hk).mpr hn

/-- The digits of a counter are few. -/
theorem utf8ByteSize_counter (x : Int64) : (toString x).utf8ByteSize ≤ 20 := by
  have hlo := x.le_toInt
  have hhi := x.toInt_lt
  show (toString x.toInt).utf8ByteSize ≤ 20
  cases hx : x.toInt with
  | ofNat n =>
    have hn : n < 10 ^ 20 := by
      rw [hx] at hhi
      have hlt : (n : Int) < 2 ^ 63 := hhi
      omega
    exact utf8ByteSize_nat_le (by omega) hn
  | negSucc n =>
    have hn : n + 1 < 10 ^ 19 := by
      rw [hx] at hlo
      omega
    show ("-" ++ toString (n + 1)).utf8ByteSize ≤ 20
    rw [String.utf8ByteSize_append]
    have hdigits := utf8ByteSize_nat_le (by omega) hn
    have hsign : "-".utf8ByteSize = 1 := rfl
    omega

/-! ## What a call stores -/

/-- What an action that does not fail makes of the swept rows. -/
inductive Change (sqlite : Sqlite) (serde : Serde) (config : Config) (now_ms : Int64) (req : DbRequest)
    (kv : Kv) : Kv → Prop
  | read : Change sqlite serde config now_ms req kv kv
  | erased (key : String) : Change sqlite serde config now_ms req kv (kv.erase key)
  | stored (key : String) (row : Row) (hfits : row.value.utf8ByteSize ≤ config.max_value_bytes) :
      Change sqlite serde config now_ms req kv (kv.insert key row)
  | patched {key path : String} {value v : Json} {row : Row} {new_raw : String}
      (hreq : req = .Patch key path value) (hlive : kv.live key now_ms = some row)
      (hset : sqlite.json_set row.value path value.print = .ok new_raw)
      (hread : serde.fromStr new_raw = .ok v) :
      Change sqlite serde config now_ms req kv
        (kv.insert key { row with value := new_raw, updated_at := now_ms })

/-- An action has failed and changed nothing, or it was done. -/
def Outcome {α : Type} (sqlite : Sqlite) (serde : Serde) (config : Config) (now_ms : Int64)
    (req : DbRequest) (kv : Kv) (r : Except String α) (kv' : Kv) : Prop :=
  (kv' = kv ∧ ∃ e, r = .error e) ∨
    (∃ a, r = .ok a) ∧ Change sqlite serde config now_ms req kv kv'

variable {req : DbRequest} {key path : String} {value : Json}

theorem decode_eq_ok {row : Row} {v : Json} (h : decode serde key row = .ok v) :
    serde.fromStr row.value = .ok v := by
  unfold decode at h
  cases hread : serde.fromStr row.value with
  | error e =>
    rw [hread] at h
    cases h
  | ok v' =>
    rw [hread] at h
    exact h

theorem outcome_get {r : Except String Json}
    (h : (handle_get serde now_ms fault key).exec kv = (r, kv')) :
    Outcome sqlite serde config now_ms req kv r kv' := by
  rcases Db.transaction_cases h with ⟨rfl, e, rfl⟩ | ⟨a, rfl, hbody⟩
  · exact .inl ⟨rfl, e, rfl⟩
  rw [Tx.exec_bind, Tx.exec_get] at hbody
  cases hlive : kv.live key now_ms with
  | none =>
    simp only [hlive, Tx.exec_pure] at hbody
    obtain ⟨-, rfl⟩ := Prod.mk.inj (Except.ok.inj hbody)
    exact .inr ⟨⟨a, rfl⟩, .read⟩
  | some row =>
    cases hread : decode serde key row with
    | error e =>
      simp only [hlive, hread, Tx.exec_throw] at hbody
      cases hbody
    | ok v =>
      simp only [hlive, hread, Tx.exec_pure] at hbody
      obtain ⟨-, rfl⟩ := Prod.mk.inj (Except.ok.inj hbody)
      exact .inr ⟨⟨a, rfl⟩, .read⟩

theorem outcome_set {ttl_ms : Option Int64} {r : Except String Json}
    (h : (handle_set config now_ms fault key value ttl_ms).exec kv = (r, kv')) :
    Outcome sqlite serde config now_ms req kv r kv' := by
  unfold handle_set at h
  by_cases hlarge : config.max_value_bytes < value.print.utf8ByteSize
  · simp only [hlarge, if_true, Db.exec_throw] at h
    obtain ⟨rfl, rfl⟩ := Prod.mk.inj h
    exact .inl ⟨rfl, _, rfl⟩
  simp only [hlarge, if_false] at h
  rcases Db.transaction_cases h with ⟨rfl, e, rfl⟩ | ⟨a, rfl, hbody⟩
  · exact .inl ⟨rfl, e, rfl⟩
  rw [Tx.exec_bind, Tx.exec_modify] at hbody
  simp only [Tx.exec_pure] at hbody
  obtain ⟨-, rfl⟩ := Prod.mk.inj (Except.ok.inj hbody)
  exact .inr ⟨⟨a, rfl⟩, .stored key _ (Nat.not_lt.mp hlarge)⟩

theorem outcome_delete {r : Except String (Bool × Json)}
    (h : (handle_delete fault key).exec kv = (r, kv')) :
    Outcome sqlite serde config now_ms req kv r kv' := by
  rcases Db.transaction_cases h with ⟨rfl, e, rfl⟩ | ⟨a, rfl, hbody⟩
  · exact .inl ⟨rfl, e, rfl⟩
  simp only [Tx.exec_bind, Tx.exec_get, Tx.exec_modify, Tx.exec_pure] at hbody
  obtain ⟨-, rfl⟩ := Prod.mk.inj (Except.ok.inj hbody)
  exact .inr ⟨⟨a, rfl⟩, .erased key⟩

theorem outcome_incr (hmax : 20 ≤ config.max_value_bytes) {delta : Int64} {r : Except String Json}
    (h : (handle_incr serde now_ms fault key delta).exec kv = (r, kv')) :
    Outcome sqlite serde config now_ms req kv r kv' := by
  rcases Db.transaction_cases h with ⟨rfl, e, rfl⟩ | ⟨a, rfl, hbody⟩
  · exact .inl ⟨rfl, e, rfl⟩
  rw [Tx.exec_bind, Tx.exec_get] at hbody
  cases hnew : new_counter serde key delta (kv.live key now_ms) with
  | error e =>
    simp only [hnew, Tx.exec_throw] at hbody
    cases hbody
  | ok new_value =>
    simp only [hnew, Tx.exec_bind, Tx.exec_modify, Tx.exec_pure] at hbody
    obtain ⟨-, rfl⟩ := Prod.mk.inj (Except.ok.inj hbody)
    exact .inr ⟨⟨a, rfl⟩, .stored key _ (Nat.le_trans (utf8ByteSize_counter new_value) hmax)⟩

theorem outcome_append {r : Except String Json}
    (h : (handle_append serde config now_ms fault key value).exec kv = (r, kv')) :
    Outcome sqlite serde config now_ms req kv r kv' := by
  rcases Db.transaction_cases h with ⟨rfl, e, rfl⟩ | ⟨a, rfl, hbody⟩
  · exact .inl ⟨rfl, e, rfl⟩
  rw [Tx.exec_bind, Tx.exec_get] at hbody
  cases hnew : new_items serde key value (kv.live key now_ms) with
  | error e =>
    simp only [hnew, Tx.exec_throw] at hbody
    cases hbody
  | ok items =>
    simp only [hnew] at hbody
    by_cases hlarge : config.max_value_bytes < (Json.arr items).print.utf8ByteSize
    · simp only [hlarge, if_true, Tx.exec_throw] at hbody
      cases hbody
    · simp only [hlarge, if_false, Tx.exec_bind, Tx.exec_modify, Tx.exec_pure] at hbody
      obtain ⟨-, rfl⟩ := Prod.mk.inj (Except.ok.inj hbody)
      exact .inr ⟨⟨a, rfl⟩, .stored key _ (Nat.not_lt.mp hlarge)⟩

theorem outcome_patch {r : Except String Json} (hreq : req = .Patch key path value)
    (h : (handle_patch sqlite serde now_ms fault key path value).exec kv = (r, kv')) :
    Outcome sqlite serde config now_ms req kv r kv' := by
  rcases Db.transaction_cases h with ⟨rfl, e, rfl⟩ | ⟨a, rfl, hbody⟩
  · exact .inl ⟨rfl, e, rfl⟩
  rw [Tx.exec_bind, Tx.exec_get] at hbody
  cases hlive : kv.live key now_ms with
  | none =>
    simp only [hlive, Tx.exec_throw] at hbody
    cases hbody
  | some row =>
  cases hset : sqlite.json_set row.value path value.print with
  | error msg =>
    simp only [hlive, hset, Tx.exec_throw] at hbody
    cases hbody
  | ok new_raw =>
  simp only [hlive, hset, Tx.exec_bind, Tx.exec_modify] at hbody
  cases hread : decode serde key { row with value := new_raw, updated_at := now_ms } with
  | error e =>
    simp only [hread, Tx.exec_throw] at hbody
    cases hbody
  | ok v =>
    simp only [hread, Tx.exec_pure] at hbody
    obtain ⟨-, rfl⟩ := Prod.mk.inj (Except.ok.inj hbody)
    exact .inr ⟨⟨a, rfl⟩, .patched hreq hlive hset (decode_eq_ok hread)⟩

/-- The reply of an action is made of its result. -/
theorem Outcome.map {α β : Type} {r : Except String α} {f : α → β}
    (h : Outcome sqlite serde config now_ms req kv r kv') :
    Outcome sqlite serde config now_ms req kv (r.map f) kv' := by
  rcases h with ⟨rfl, e, rfl⟩ | ⟨⟨a, rfl⟩, hchange⟩
  · exact .inl ⟨rfl, e, rfl⟩
  · exact .inr ⟨⟨f a, rfl⟩, hchange⟩

theorem exec_map {α β : Type} {m : Db Kv α} {f : α → β} {r : Except String β}
    (h : (m >>= fun a => pure (f a)).exec kv = (r, kv')) :
    ∃ r', m.exec kv = (r', kv') ∧ r = r'.map f := by
  rw [Db.exec_bind_pure] at h
  obtain ⟨hr, hkv⟩ := Prod.mk.inj h
  exact ⟨(m.exec kv).1, Prod.ext rfl hkv, hr.symm⟩

theorem outcome_dispatch (hmax : 20 ≤ config.max_value_bytes) {r : Reply}
    (h : (dispatch sqlite serde config now_ms fault req).exec kv = (r, kv')) :
    Outcome sqlite serde config now_ms req kv r kv' := by
  cases req with
  | Get key =>
    obtain ⟨r', hr', rfl⟩ := exec_map h
    exact (outcome_get hr').map
  | Set key value ttl_ms =>
    obtain ⟨r', hr', rfl⟩ := exec_map h
    exact (outcome_set hr').map
  | Delete key =>
    obtain ⟨r', hr', rfl⟩ := exec_map h
    exact (outcome_delete hr').map
  | Incr key delta =>
    obtain ⟨r', hr', rfl⟩ := exec_map h
    exact (outcome_incr hmax hr').map
  | Append key value =>
    obtain ⟨r', hr', rfl⟩ := exec_map h
    exact (outcome_append hr').map
  | Patch key path value =>
    obtain ⟨r', hr', rfl⟩ := exec_map h
    exact (outcome_patch rfl hr').map

/-- The action runs after the sweep, unless the database refuses that one. -/
theorem step_cases {call : Call} {r : Reply} (h : CallStep sqlite serde config kv (call, r) kv') :
    (kv' = kv ∧ ∃ e, call.sweep_fault = some e) ∨
      call.sweep_fault = none ∧
        (dispatch sqlite serde config call.now_ms call.fault call.req).exec (kv.sweep call.swept_at) =
          (r, kv') := by
  obtain ⟨req, swept_at, now_ms, sweep_fault, fault⟩ := call
  change (handle_with_events _ _ _ _).exec kv = (r, kv') at h
  unfold handle_with_events sweep_expired at h
  rw [Db.exec_bind] at h
  cases sweep_fault with
  | some e =>
    rw [Db.exec_transaction_fault] at h
    exact .inl ⟨(Prod.mk.inj h).2.symm, e, rfl⟩
  | none =>
    rw [Db.exec_transaction, Tx.exec_modify] at h
    exact .inr ⟨rfl, h⟩

/-! ## The cap -/

theorem Kv.Fits.sweep {max : Nat} (h : kv.Fits max) (at_ms : Int64) : (kv.sweep at_ms).Fits max := by
  intro key row hrow
  unfold Kv.sweep at hrow
  rw [Table.getElem?_deleteWhere] at hrow
  obtain ⟨hstored, -⟩ := Option.filter_eq_some_iff.mp hrow
  exact h key row hstored

theorem Kv.Fits.erase {max : Nat} (h : kv.Fits max) (key : String) : Kv.Fits max (kv.erase key) := by
  intro key' row hrow
  rw [Table.getElem?_erase_ite] at hrow
  split_ifs at hrow
  exact h key' row hrow

theorem Kv.Fits.insert {max : Nat} (h : kv.Fits max) (key : String) {row : Row}
    (hrow : row.value.utf8ByteSize ≤ max) : Kv.Fits max (kv.insert key row) := by
  intro key' row' hrow'
  rw [Table.getElem?_insert_ite] at hrow'
  split_ifs at hrow'
  · obtain rfl := Option.some.inj hrow'
    exact hrow
  · exact h key' row' hrow'

/-- A call keeps the cap, if its patch does. -/
theorem fits_step (hmax : 20 ≤ config.max_value_bytes) (hkv : kv.Fits config.max_value_bytes)
    {l : Call × Reply} (hcond : PatchFits sqlite serde config kv l)
    (h : CallStep sqlite serde config kv l kv') : kv'.Fits config.max_value_bytes := by
  obtain ⟨⟨req, swept_at, now_ms, sweep_fault, fault⟩, r⟩ := l
  rcases step_cases h with ⟨rfl, -⟩ | ⟨hsweep, hdispatch⟩
  · exact hkv
  have hswept := hkv.sweep swept_at
  rcases outcome_dispatch hmax hdispatch with ⟨rfl, -⟩ | ⟨⟨a, rfl⟩, hchange⟩
  · exact hswept
  cases hchange with
  | read => exact hswept
  | erased key => exact hswept.erase key
  | stored key row hfits => exact hswept.insert key hfits
  | @patched key path value v row new_raw hreq hlive hset hread =>
    refine hswept.insert key ?_
    obtain rfl : req = .Patch key path value := hreq
    obtain rfl : sweep_fault = none := hsweep
    have hfault : fault = none := by
      cases fault with
      | none => rfl
      | some e =>
        -- A refused statement has no result.
        obtain ⟨r', hr', hok⟩ := exec_map hdispatch
        have hfailed : r' = .error e := (Prod.mk.inj hr').1.symm
        rw [hfailed] at hok
        cases hok
    subst hfault
    refine hcond new_raw ?_
    unfold patched
    rw [Option.mem_def, hlive, Option.bind_some, hset]
    simp only [hread, Except.isOk, Except.toBool, if_true]

theorem of_patched {new_raw : String} (h : patched sqlite serde kv now_ms key path value = some new_raw) :
    ∃ row v, kv.live key now_ms = some row ∧
      sqlite.json_set row.value path value.print = .ok new_raw ∧ serde.fromStr new_raw = .ok v := by
  unfold patched at h
  obtain ⟨row, hlive, h⟩ := Option.bind_eq_some_iff.mp h
  cases hset : sqlite.json_set row.value path value.print with
  | error msg =>
    rw [hset] at h
    cases h
  | ok text =>
    rw [hset] at h
    dsimp only at h
    cases hread : serde.fromStr text with
    | error e =>
      rw [hread] at h
      cases h
    | ok v =>
      rw [hread] at h
      obtain rfl := Option.some.inj h
      exact ⟨row, v, hlive, hset, hread⟩

/-- The patch of a call that leaves the cap kept it. -/
theorem patchFits_of_fits {l : Call × Reply} (hkv' : kv'.Fits config.max_value_bytes)
    (h : CallStep sqlite serde config kv l kv') : PatchFits sqlite serde config kv l := by
  obtain ⟨call, r⟩ := l
  unfold PatchFits
  split
  · rename_i key path value swept_at now_ms hcall
    obtain rfl := hcall
    intro new_raw hnew
    obtain ⟨row, v, hlive, hset, hread⟩ := of_patched hnew
    rcases step_cases h with ⟨-, e, hsweep⟩ | ⟨-, hdispatch⟩
    · cases hsweep
    obtain ⟨r', hr', -⟩ := exec_map hdispatch
    unfold handle_patch at hr'
    have hdecode : decode serde key { row with value := new_raw, updated_at := now_ms } = .ok v := by
      unfold decode
      rw [hread]
      rfl
    rw [Db.exec_transaction, Tx.exec_bind, Tx.exec_get] at hr'
    simp only [hlive, hset, hdecode, Tx.exec_bind, Tx.exec_modify,
      Tx.exec_pure] at hr'
    obtain ⟨-, rfl⟩ := Prod.mk.inj hr'
    have hstored := Table.getElem?_insert_ite (kv.sweep swept_at) key key
      { row with value := new_raw, updated_at := now_ms }
    rw [if_pos rfl] at hstored
    exact hkv' key _ hstored
  · trivial

/-- A call that fails has at most swept. -/
theorem failed_step (hmax : 20 ≤ config.max_value_bytes) {l : Call × Reply}
    (h : CallStep sqlite serde config kv l kv') (e : String) (he : l.2 = .error e) :
    kv' = kv ∨ kv' = kv.sweep l.1.swept_at := by
  rcases step_cases h with ⟨rfl, -⟩ | ⟨-, hdispatch⟩
  · exact .inl rfl
  rcases outcome_dispatch hmax hdispatch with ⟨rfl, -⟩ | ⟨⟨a, ha⟩, -⟩
  · exact .inr rfl
  · rw [he] at ha
    cases ha

theorem fits_empty (max : Nat) : Kv.Fits max ∅ := by
  intro key row h
  simp at h

/-- From the empty table on, the stored texts stay within the cap, and the calls that fail change nothing,
    in exactly the runs in which what each patch stores is within the cap. -/
theorem stored_values_fit_iff (hmax : 20 ≤ config.max_value_bytes) {trace : List (Call × Reply)} :
    Run (fun kv l kv' => CallStep sqlite serde config kv l kv' ∧
        Capped config.max_value_bytes kv l kv') ∅ trace kv ↔
      Run (Where (PatchFits sqlite serde config) (CallStep sqlite serde config)) ∅ trace kv := by
  have hiff : Run (fun kv l kv' => CallStep sqlite serde config kv l kv' ∧
        Kv.Fits config.max_value_bytes kv') ∅ trace kv ↔
      Run (Where (PatchFits sqlite serde config) (CallStep sqlite serde config)) ∅ trace kv := by
    refine run_where_iff (I := fun _ => True) trivial (fits_empty config.max_value_bytes)
      (fun _ _ _ _ _ => trivial) fun kv l kv' _ hkv h => ?_
    exact ⟨fun hkv' => patchFits_of_fits hkv' h, fun hc => fits_step hmax hkv hc h⟩
  rw [← hiff]
  constructor
  · exact Run.mono fun kv l kv' h => ⟨h.1, h.2.fits⟩
  · exact Run.mono fun kv l kv' h => ⟨h.1, h.2, fun e he => failed_step hmax h.1 e he⟩

/-! ## A patch of a whole value -/

/-- The path of the whole value. -/
def wholeValue : Sqlite where
  json_set _ path value_json :=
    if path = "$" then .ok value_json else .error "bad JSON path"

def tinyCap : Config where
  max_value_bytes := 20

def callNow (req : DbRequest) : Call where
  req
  swept_at := 1000
  now_ms := 1000
  sweep_fault := none
  fault := none

def runCalls (cond : Kv → Call × Reply → Prop) [∀ kv l, Decidable (cond kv l)]
    (reqs : List DbRequest) : Option (List (Call × Reply) × Kv) :=
  runOf (answerCall wholeValue .compact tinyCap cond) ∅ (reqs.map callNow)

theorem run_runCalls {cond : Kv → Call × Reply → Prop} [∀ kv l, Decidable (cond kv l)]
    {reqs : List DbRequest} {r : List (Call × Reply) × Kv} (h : runCalls cond reqs = some r) :
    Run (Where cond (CallStep wholeValue .compact tinyCap)) ∅ r.1 r.2 :=
  run_runOf (fun _ _ _ _ h => callStep_answerCall h) h

/-- A text of 24 bytes. -/
def longText : Json := .str "abcdefghijklmnopqrstuv"

/-- Two appends that fit, one that does not, and a patch of the value. -/
def growLog : List DbRequest :=
  [.Append "log" (.int 1), .Append "log" (.int 2), .Append "log" longText,
    .Patch "log" "$" (.str "done")]

theorem stored_values_fit_iff_sample : ∃ r,
    runCalls (PatchFits wholeValue .compact tinyCap) growLog = some r ∧
    r.2["log"]?.map Row.value = some "\"done\"" ∧
    Run (fun kv l kv' => CallStep wholeValue .compact tinyCap kv l kv' ∧
      Capped tinyCap.max_value_bytes kv l kv') ∅ r.1 r.2 := by
  have hsome : ((runCalls (PatchFits wholeValue .compact tinyCap) growLog).any fun r =>
      r.2["log"]?.map Row.value = some "\"done\"") = true := by
    decide +kernel
  obtain ⟨r, hr, hvalue⟩ := (Option.any_eq_true _ _).mp hsome
  have hcap : 20 ≤ tinyCap.max_value_bytes := Nat.le_refl 20
  exact ⟨r, hr, of_decide_eq_true hvalue, (stored_values_fit_iff hcap).mpr (run_runCalls hr)⟩

/-- The patch stores what the set would refuse. -/
theorem patch_outgrows_cap : ∃ trace kv,
    Run (CallStep wholeValue .compact tinyCap) ∅ trace kv ∧
    20 ≤ tinyCap.max_value_bytes ∧ ¬ kv.Fits tinyCap.max_value_bytes := by
  have hsome : ((runCalls (fun _ _ => True) [.Set "log" .null none, .Patch "log" "$" longText]).any
      fun r => r.2["log"]?.map (fun row => row.value.utf8ByteSize) = some 24) = true := by
    decide +kernel
  obtain ⟨r, hr, hsize⟩ := (Option.any_eq_true _ _).mp hsome
  obtain ⟨row, hrow, hlong⟩ := Option.map_eq_some_iff.mp (of_decide_eq_true hsize)
  refine ⟨r.1, r.2, (run_runCalls hr).mono fun _ _ _ hl => hl.1, Nat.le_refl 20, fun hfits => ?_⟩
  have hle : row.value.utf8ByteSize ≤ 20 := hfits "log" row hrow
  omega

end Database
