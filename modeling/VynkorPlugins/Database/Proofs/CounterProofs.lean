import Mathlib
import VynkorPlugins.Database.Handler
import VynkorPlugins.Database.Proofs.CapProofs

/-!
# Counters, arrays and times of expiry

A row that dies between the sweep and the action is read as dead but keeps its expiry, and the sums of two
`i64` wrap around.
-/

namespace Database

variable {sqlite : Sqlite} {serde : Serde} {config : Config} {now_ms : Int64} {fault : Option String}
  {kv kv' : Kv} {key : String} {row : Row} {value : Json} {delta : Int64}

/-! ## Sums -/

theorem inI64_toInt (x : Int64) : InI64 x.toInt :=
  ⟨x.le_toInt, x.toInt_lt⟩

/-- A sum is exact as long as it is in range. -/
theorem toInt_add_iff {a b : Int64} : (a + b).toInt = a.toInt + b.toInt ↔ InI64 (a.toInt + b.toInt) := by
  constructor
  · intro h
    rw [← h]
    exact inI64_toInt _
  · rintro ⟨hlo, hhi⟩
    rw [Int64.toInt_add]
    exact Int.bmod_eq_of_le (by omega) (by omega)

/-- A sum above the range wraps around to a negative one. -/
theorem toInt_add_neg {a b : Int64} (h : 2 ^ 63 ≤ a.toInt + b.toInt) : (a + b).toInt < 0 := by
  have ha := a.toInt_lt
  have hb := b.toInt_lt
  have hwrap : (a.toInt + b.toInt).bmod (2 ^ 64) = a.toInt + b.toInt - 2 ^ 64 := by
    rw [← Int.sub_bmod_right]
    exact Int.bmod_eq_of_le (by omega) (by omega)
  rw [Int64.toInt_add, hwrap]
  omega

theorem inI64_of_asI64 {n : Int} (h : value.asI64 = some n) : InI64 n := by
  cases value with
  | int m =>
    rw [Json.asI64] at h
    split_ifs at h with hm
    obtain rfl := Option.some.inj h
    exact hm
  | _ => cases h

/-- The sum of a counter is exact as long as it is in range. -/
theorem toInt_ofInt_add {n : Int} (hn : InI64 n) (h : InI64 (n + delta.toInt)) :
    (Int64.ofInt n + delta).toInt = n + delta.toInt := by
  have hread : (Int64.ofInt n).toInt = n := Int64.toInt_ofInt_of_le hn.1 hn.2
  rw [← hread] at h
  rw [toInt_add_iff.mpr h, hread]

/-- A counter is stored by its digits. -/
theorem toString_eq_print (x : Int64) : toString x = (Json.int x.toInt).print := by
  show toString x.toInt = _
  cases x.toInt with
  | ofNat n => exact Nat.repr_eq_ofList_toDigits
  | negSucc n =>
    show "-" ++ Nat.repr (n + 1) = String.ofList (['-'] ++ Nat.toDigits 10 (n + 1))
    rw [Nat.repr_eq_ofList_toDigits, String.ofList_append]

/-! ## Rows in time -/

theorem alive_iff {t : Int64} : row.alive t = true ↔ ∀ e ∈ row.expires_at, t < e := by
  rw [Row.alive, Option.all_eq_true]
  simp

theorem getElem?_sweep {t : Int64} : (kv.sweep t)[key]? = kv.live key t := by
  rw [Kv.sweep, Table.getElem?_deleteWhere, Kv.live]
  simp only [Bool.not_not]

/-- A row that is alive was alive when the dead ones were swept. -/
theorem live_sweep {s t : Int64} (h : s ≤ t) : (kv.sweep s).live key t = kv.live key t := by
  rw [Kv.live, getElem?_sweep, Kv.live, Kv.live, Option.filter_filter]
  congr 1
  funext row
  rw [Bool.and_eq_right_iff_imp]
  intro halive
  rw [alive_iff] at halive ⊢
  exact fun e he => Int64.lt_of_le_of_lt h (halive e he)

theorem live_eq_some {t : Int64} : kv.live key t = some row ↔ kv[key]? = some row ∧ row.alive t = true := by
  rw [Kv.live, Option.filter_eq_some_iff]

/-- A row that does not die in between has its expiry at both times. -/
theorem expiry_kept {s t : Int64} (h : s ≤ t)
    (hexpiry : ∀ row ∈ kv[key]?, ∀ e ∈ row.expires_at, ¬ (s < e ∧ e ≤ t)) :
    (kv.live key s).bind Row.expires_at = (kv.live key t).bind Row.expires_at := by
  cases hlater : kv.live key t with
  | some row =>
    have hsome : kv.live key s = some row := by
      rw [← live_sweep h, live_eq_some, getElem?_sweep] at hlater
      exact hlater.1
    rw [hsome]
  | none =>
    cases hearlier : kv.live key s with
    | none => rfl
    | some row =>
      obtain ⟨hrow, halive⟩ := live_eq_some.mp hearlier
      -- The row that is alive at first is not dead later.
      have hlater' : kv.live key t = some row := by
        rw [live_eq_some, alive_iff]
        refine ⟨hrow, fun e he => Int64.not_le.mp fun hle => ?_⟩
        exact hexpiry row hrow e he ⟨alive_iff.1 halive e he, hle⟩
      rw [hlater] at hlater'
      cases hlater'

/-! ## Actions -/

theorem exec_get_call {get : Call} (hreq : get.req = .Get key) (hsweep : get.sweep_fault = none)
    (hfault : get.fault = none) :
    ((handle_with_events sqlite serde config get).exec kv).1 =
      match (kv.sweep get.swept_at).live key get.now_ms with
      | none => .ok (.obj [("found", .bool false), ("value", .null)], none)
      | some row => (decode serde key row).map fun value =>
          (.obj [("found", .bool true), ("value", value)], none) := by
  obtain ⟨req, swept_at, now_ms, sweep_fault, fault⟩ := get
  dsimp only at hreq hsweep hfault
  subst hreq hsweep hfault
  have hswept : (sweep_expired swept_at none).exec kv = (.ok ⟨⟩, kv.sweep swept_at) := rfl
  rw [handle_with_events, Db.exec_bind, hswept]
  show ((handle_get serde now_ms none key >>= fun v => pure (v, none)).exec (kv.sweep swept_at)).1 = _
  rw [Db.exec_bind_pure, handle_get, Db.exec_transaction, Tx.exec_bind, Tx.exec_get]
  dsimp only
  cases hlive : (kv.sweep swept_at).live key now_ms with
  | none => rfl
  | some row =>
    cases hread : decode serde key row with
    | error e =>
      simp only [hread, Tx.exec_throw]
      rfl
    | ok v =>
      simp only [hread, Tx.exec_pure]
      rfl

theorem decode_print {v : Json} (h : row.value = v.print) : decode serde key row = .ok (serde.reread v) := by
  rw [decode, h, Serde.fromStr_print]
  rfl

/-- A stored value is found as long as its row is alive. -/
theorem readable_of_alive {times : Int64 → Prop} (hrow : kv[key]? = some row)
    (hvalue : row.value = value.print) (halive : ∀ t, times t → row.alive t = true) :
    kv.Readable sqlite serde config key value times := by
  intro get hreq hsweep hfault hswept hnow
  have hlive : (kv.sweep get.swept_at).live key get.now_ms = some row := by
    rw [live_eq_some, getElem?_sweep, live_eq_some]
    exact ⟨⟨hrow, halive _ hswept⟩, halive _ hnow⟩
  rw [exec_get_call hreq hsweep hfault, hlive]
  show (decode serde key row).map _ = _
  rw [decode_print hvalue]
  rfl

/-- A row that is dead is not found. -/
theorem alive_of_readable {times : Int64 → Prop} (hrow : kv[key]? = some row)
    (h : kv.Readable sqlite serde config key value times) {t : Int64} (ht : times t) :
    row.alive t = true := by
  by_contra hdead
  have hlive : (kv.sweep t).live key t = none := by
    rw [live_sweep Int64.le_rfl, Kv.live, hrow, Option.filter_some_eq_none.mpr hdead]
  have hget := h { req := .Get key, swept_at := t, now_ms := t, sweep_fault := none, fault := none }
    rfl rfl rfl ht ht
  rw [exec_get_call rfl rfl rfl, hlive] at hget
  simp at hget

theorem exec_incr : (handle_incr serde now_ms none key delta).exec kv =
    match new_counter serde key delta (kv.live key now_ms) with
    | .error e => (.error e, kv)
    | .ok n => (.ok (.obj [("ok", .bool true), ("value", .int n.toInt)]),
        kv.upsert key (toString n) now_ms) := by
  rw [handle_incr, Db.exec_transaction, Tx.exec_bind, Tx.exec_get]
  dsimp only
  cases hnew : new_counter serde key delta (kv.live key now_ms) with
  | error e => rfl
  | ok n => rfl

theorem exec_append : (handle_append serde config now_ms none key value).exec kv =
    match new_items serde key value (kv.live key now_ms) with
    | .error e => (.error e, kv)
    | .ok items =>
      if config.max_value_bytes < (Json.arr items).print.utf8ByteSize then
        (.error (value_exceeds (Json.arr items).print.utf8ByteSize config.max_value_bytes), kv)
      else (.ok (.obj [("length", .int items.length), ("ok", .bool true)]),
        kv.upsert key (Json.arr items).print now_ms) := by
  rw [handle_append, Db.exec_transaction, Tx.exec_bind, Tx.exec_get]
  dsimp only
  cases hnew : new_items serde key value (kv.live key now_ms) with
  | error e => rfl
  | ok items =>
    dsimp only
    split_ifs with hlarge
    · rfl
    · rfl

/-! ## Increments and appends -/

theorem of_new_counter {n : Int64} (h : new_counter serde key delta (some row) = .ok n) :
    ∃ old, counter serde key row = some old ∧ InI64 old ∧ n = Int64.ofInt old + delta := by
  unfold new_counter at h
  dsimp only at h
  unfold counter
  cases hread : decode serde key row with
  | error e =>
    rw [hread] at h
    cases h
  | ok value =>
    rw [hread] at h
    dsimp only at h
    cases hold : value.asI64 with
    | none =>
      rw [hold] at h
      cases h
    | some old =>
      rw [hold] at h
      exact ⟨old, hold, inI64_of_asI64 hold, (Except.ok.inj h).symm⟩

theorem new_counter_of_counter {n : Int} (h : counter serde key row = some n) :
    new_counter serde key delta (some row) = .ok (Int64.ofInt n + delta) := by
  unfold counter at h
  unfold new_counter
  dsimp only
  cases hread : decode serde key row with
  | error e =>
    rw [hread] at h
    cases h
  | ok value =>
    rw [hread] at h
    have hold : value.asI64 = some n := h
    dsimp only
    rw [hold]

/-- The text that an increment or an append stores. -/
def Stores (serde : Serde) (old : Option Row) (text : String) : DbRequest → Prop
  | .Incr key delta => ∃ n, new_counter serde key delta old = .ok n ∧ text = (Json.int n.toInt).print
  | .Append key value => ∃ items, new_items serde key value old = .ok items ∧ text = (Json.arr items).print
  | _ => False

/-- The action runs after the sweep, unless the database refuses that one. -/
theorem exec_call {call : Call} {r : Reply} (h : CallStep sqlite serde config kv (call, r) kv') :
    (∃ e, call.sweep_fault = some e ∧ r = .error e ∧ kv' = kv) ∨
      call.sweep_fault = none ∧
        (dispatch sqlite serde config call.now_ms call.fault call.req).exec (kv.sweep call.swept_at) =
          (r, kv') := by
  obtain ⟨req, swept_at, now_ms, sweep_fault, fault⟩ := call
  change (handle_with_events _ _ _ _).exec kv = _ at h
  rw [handle_with_events, Db.exec_bind] at h
  cases sweep_fault with
  | some e =>
    obtain ⟨rfl, rfl⟩ := Prod.mk.inj h
    exact .inl ⟨e, rfl, rfl, rfl⟩
  | none => exact .inr ⟨rfl, h⟩

theorem stores_of_ok {call : Call} {result : Json × Option ChangeEvent}
    (h : CallStep sqlite serde config kv (call, .ok result) kv') (hgrows : call.req.grows = some key)
    (hclock : call.swept_at ≤ call.now_ms) :
    ∃ text, Stores serde (kv.live key call.now_ms) text call.req ∧
      kv' = (kv.sweep call.swept_at).upsert key text call.now_ms := by
  rcases exec_call h with ⟨e, -, hfail, -⟩ | ⟨-, hdispatch⟩
  · cases hfail
  obtain ⟨req, swept_at, now_ms, sweep_fault, fault⟩ := call
  dsimp only at hgrows hclock hdispatch ⊢
  cases req with
  | Incr key' delta =>
    obtain rfl : key' = key := Option.some.inj hgrows
    obtain ⟨r, hr, hok⟩ := exec_map hdispatch
    cases fault with
    | some e =>
      obtain rfl : .error e = r := (Prod.mk.inj hr).1
      cases hok
    | none =>
      rw [exec_incr, live_sweep hclock] at hr
      cases hnew : new_counter serde key' delta (kv.live key' now_ms) with
      | error e =>
        rw [hnew] at hr
        obtain rfl : .error e = r := (Prod.mk.inj hr).1
        cases hok
      | ok n =>
        rw [hnew] at hr
        refine ⟨_, ⟨n, hnew, rfl⟩, ?_⟩
        rw [← toString_eq_print]
        exact (Prod.mk.inj hr).2.symm
  | Append key' value =>
    obtain rfl : key' = key := Option.some.inj hgrows
    obtain ⟨r, hr, hok⟩ := exec_map hdispatch
    cases fault with
    | some e =>
      obtain rfl : .error e = r := (Prod.mk.inj hr).1
      cases hok
    | none =>
      rw [exec_append, live_sweep hclock] at hr
      cases hnew : new_items serde key' value (kv.live key' now_ms) with
      | error e =>
        rw [hnew] at hr
        obtain rfl : .error e = r := (Prod.mk.inj hr).1
        cases hok
      | ok items =>
        rw [hnew] at hr
        dsimp only at hr
        split_ifs at hr with hlarge
        · obtain rfl := (Prod.mk.inj hr).1
          cases hok
        · exact ⟨_, ⟨items, hnew, rfl⟩, (Prod.mk.inj hr).2.symm⟩
  | _ => cases hgrows

/-- Numbers with the same digits are equal. -/
theorem int_of_print_eq {m n : Int} (h : (Json.int m).print = (Json.int n).print) : m = n := by
  have hread := Json.read_print (.int m)
  rw [h, Json.read_print] at hread
  simpa [Json.normal] using (Option.some.inj hread).symm

theorem expiry_of_grown_none {req : DbRequest} {expires_at : Option Int64}
    (h : Grown serde none req value expires_at) : expires_at = none := by
  cases h with
  | counter => rfl
  | array => rfl

/-- The sum that is stored is the one that is owed, if it is in range. -/
theorem grown_of_stores {old : Option Row} {text : String} {req : DbRequest}
    (hstores : Stores serde old text req)
    (hsum : ∀ key delta, req = .Incr key delta →
      ∀ row ∈ old, ∀ n ∈ counter serde key row, InI64 (n + delta.toInt)) :
    ∃ value, Grown serde old req value (old.bind Row.expires_at) ∧ text = value.print := by
  cases req with
  | Incr key delta =>
    obtain ⟨n, hnew, rfl⟩ := hstores
    cases old with
    | none =>
      obtain rfl := Except.ok.inj hnew
      exact ⟨_, .counter key delta, rfl⟩
    | some row =>
      obtain ⟨m, hm, hin, rfl⟩ := of_new_counter hnew
      rw [toInt_ofInt_add hin (hsum key delta rfl row rfl m hm)]
      exact ⟨_, .sum delta hm, rfl⟩
  | Append key value =>
    obtain ⟨items, hnew, rfl⟩ := hstores
    cases old with
    | none =>
      obtain rfl := Except.ok.inj hnew
      exact ⟨_, .array key value, rfl⟩
    | some row =>
      unfold new_items at hnew
      dsimp only at hnew
      cases hread : decode serde key row with
      | error e =>
        rw [hread] at hnew
        cases hnew
      | ok stored =>
        rw [hread] at hnew
        cases stored with
        | arr old =>
          obtain rfl := Except.ok.inj hnew
          exact ⟨_, .longer value hread, rfl⟩
        | _ => cases hnew
  | _ => cases hstores

/-- The counter that is owed is stored only if the sum is in range. -/
theorem inI64_of_grown {expires_at : Option Int64} {n : Int} (hcounter : counter serde key row = some n)
    (hstores : Stores serde (some row) value.print (.Incr key delta))
    (hgrown : Grown serde (some row) (.Incr key delta) value expires_at) :
    InI64 (n + delta.toInt) := by
  obtain ⟨new_value, -, hprint⟩ := hstores
  cases hgrown with
  | sum _ hold =>
    obtain rfl := Option.some.inj (hold.symm.trans hcounter)
    rw [int_of_print_eq hprint]
    exact inI64_toInt new_value

/-- An increment or an append that is acknowledged is not lost in exactly the calls that nothing disturbs. -/
theorem notLost_iff {call : Call} {result : Json × Option ChangeEvent}
    (h : CallStep sqlite serde config kv (call, .ok result) kv') (hclock : call.swept_at ≤ call.now_ms) :
    NotLost sqlite serde config kv call kv' ↔ Undisturbed serde kv call := by
  constructor
  · intro hkept key hgrows
    obtain ⟨value, expires_at, hgrown, ⟨row, hrow, hvalue, hexpires⟩, -⟩ := hkept key hgrows
    obtain ⟨text, hstores, rfl⟩ := stores_of_ok h hgrows hclock
    rw [Kv.upsert, Table.getElem?_insert_ite, if_pos rfl] at hrow
    obtain rfl := Option.some.inj hrow
    dsimp only at hvalue hexpires
    subst hvalue hexpires
    rw [getElem?_sweep] at hgrown
    refine ⟨?_, ?_⟩
    · rintro old hold e he ⟨hswept, hdied⟩
      have hsome : kv.live key call.swept_at = some old := by
        rw [live_eq_some, alive_iff]
        refine ⟨hold, fun e' he' => ?_⟩
        obtain rfl := Option.some.inj (he.symm.trans he')
        exact hswept
      have hnone : kv.live key call.now_ms = none := by
        rw [Kv.live, hold, Option.filter_some_eq_none, alive_iff]
        exact fun halive => Int64.not_lt.mpr hdied (halive e he)
      -- The new value is owed no expiry, but has the one of the dead row.
      rw [hsome, hnone, Option.bind_some, he] at hgrown
      cases expiry_of_grown_none hgrown
    · intro delta hreq old hold n hn
      rw [hreq, hold] at hstores hgrown
      exact inI64_of_grown hn hstores hgrown
  · intro hcond key hgrows
    obtain ⟨hexpiry, hsum⟩ := hcond key hgrows
    obtain ⟨text, hstores, rfl⟩ := stores_of_ok h hgrows hclock
    have hkeeps : (kv.live key call.swept_at).bind Row.expires_at =
        (kv.live key call.now_ms).bind Row.expires_at := expiry_kept hclock hexpiry
    obtain ⟨value, hgrown, rfl⟩ := grown_of_stores hstores fun key' delta hreq => by
      obtain rfl : key' = key := by
        rw [hreq] at hgrows
        exact Option.some.inj hgrows
      exact hsum delta hreq
    have hrow : (Kv.upsert (kv.sweep call.swept_at) key value.print call.now_ms)[key]? =
        some { value := value.print, updated_at := call.now_ms,
               expires_at := (kv.live key call.now_ms).bind Row.expires_at } := by
      rw [Kv.upsert, Table.getElem?_insert_ite, if_pos rfl, getElem?_sweep, hkeeps]
    refine ⟨value, _, hgrown, ⟨_, hrow, rfl, rfl⟩, readable_of_alive hrow rfl ?_⟩
    rintro t ⟨-, ht⟩
    exact alive_iff.2 ht

/-- An increment of a key whose number is found. -/
theorem callStep_incr {swept_at : Int64} {n : Int64}
    (hnew : new_counter serde key delta ((kv.sweep swept_at).live key now_ms) = .ok n) :
    CallStep sqlite serde config kv
      ({ req := .Incr key delta, swept_at, now_ms, sweep_fault := none, fault := none },
        .ok (.obj [("ok", .bool true), ("value", .int n.toInt)], some { action := "db_incr", key }))
      ((kv.sweep swept_at).upsert key (toString n) now_ms) := by
  have hswept : (sweep_expired swept_at none).exec kv = (.ok ⟨⟩, kv.sweep swept_at) := rfl
  rw [CallStep, handle_with_events, Db.exec_bind, hswept]
  show ((handle_incr serde now_ms none key delta >>= fun v =>
    pure (v, some (ChangeEvent.mk "db_incr" key))).exec (kv.sweep swept_at)) = _
  rw [Db.exec_bind_pure, exec_incr, hnew]
  rfl

/-- A counter that expires at a second. -/
def dying : Kv :=
  Std.ExtTreeMap.empty.insert "hits" { value := "5", updated_at := 0, expires_at := some 1000 }

/-- An increment that begins just before the counter expires. -/
def lateIncrement : Call where
  req := .Incr "hits" 1
  swept_at := 999
  now_ms := 1000
  sweep_fault := none
  fault := none

theorem getElem?_dying :
    dying["hits"]? = some { value := "5", updated_at := 0, expires_at := some 1000 } := by
  rw [dying, Table.getElem?_insert_ite, if_pos rfl]

theorem callStep_lateIncrement : CallStep wholeValue .compact tinyCap dying
    (lateIncrement, .ok (.obj [("ok", .bool true), ("value", .int 1)],
      some { action := "db_incr", key := "hits" }))
    ((dying.sweep 999).upsert "hits" (toString (1 : Int64)) 1000) := by
  refine callStep_incr (n := 1) ?_
  rw [live_sweep (by decide), Kv.live, getElem?_dying]
  rfl

theorem notLost_iff_lateIncrement :
    NotLost wholeValue .compact tinyCap dying lateIncrement
        ((dying.sweep 999).upsert "hits" (toString (1 : Int64)) 1000) ↔
      Undisturbed .compact dying lateIncrement :=
  notLost_iff callStep_lateIncrement (by decide)

/-- The increment is acknowledged, but the counter has the expiry that has passed. -/
theorem late_increment_lost : ∃ result kv',
    CallStep wholeValue .compact tinyCap dying (lateIncrement, .ok result) kv' ∧
      ¬ NotLost wholeValue .compact tinyCap dying lateIncrement kv' := by
  refine ⟨_, _, callStep_lateIncrement, fun h => ?_⟩
  obtain ⟨value, expires_at, hgrown, ⟨row, hrow, -, hexpires⟩, -⟩ := h "hits" rfl
  have hnone : dying.live "hits" lateIncrement.now_ms = none := by
    rw [Kv.live, getElem?_dying]
    rfl
  rw [hnone] at hgrown
  rw [expiry_of_grown_none hgrown] at hexpires
  rw [Kv.upsert, Table.getElem?_insert_ite, if_pos rfl, getElem?_sweep, Kv.live, getElem?_dying] at hrow
  obtain rfl := Option.some.inj hrow
  cases hexpires

/-! ## Arithmetic -/

theorem exec_set {ttl_ms : Option Int64} : (handle_set config now_ms none key value ttl_ms).exec kv =
    if config.max_value_bytes < value.print.utf8ByteSize then
      (.error (value_exceeds value.print.utf8ByteSize config.max_value_bytes), kv)
    else (.ok (.obj [("ok", .bool true)]), kv.insert key
      { value := value.print, updated_at := now_ms, expires_at := ttl_ms.map fun ttl => now_ms + ttl }) := by
  rw [handle_set]
  split_ifs with hlarge
  · rfl
  · rfl

/-- A value is found until its time has passed, if the sum of the times does not wrap around. -/
theorem readable_set_iff {ttl_ms : Int64} :
    Kv.Readable sqlite serde config (kv.insert key
        { value := value.print, updated_at := now_ms, expires_at := some (now_ms + ttl_ms) })
      key value (fun t => t.toInt < now_ms.toInt + ttl_ms.toInt) ↔
    now_ms.toInt + ttl_ms.toInt < 2 ^ 63 := by
  constructor
  · intro h
    by_contra hlarge
    have hneg := toInt_add_neg (Int.not_lt.mp hlarge)
    have hzero : (0 : Int64).toInt < now_ms.toInt + ttl_ms.toInt := by
      rw [show (0 : Int64).toInt = 0 from rfl]
      omega
    have halive := alive_iff.1 (alive_of_readable Std.ExtTreeMap.getElem?_insert_self h hzero) _ rfl
    rw [Int64.lt_iff_toInt_lt, show (0 : Int64).toInt = 0 from rfl] at halive
    omega
  · intro hsum
    refine readable_of_alive Std.ExtTreeMap.getElem?_insert_self rfl fun t ht => alive_iff.2 ?_
    rintro e he
    obtain rfl := Option.some.inj he
    have hlo := t.le_toInt
    rw [Int64.lt_iff_toInt_lt, toInt_add_iff.mpr ⟨by omega, hsum⟩]
    exact ht

/-- An increment stores and returns the sum exactly if it is in range. -/
theorem exact_incr_iff {call : Call} {r : Reply} (h : CallStep sqlite serde config kv (call, r) kv')
    (hreq : call.req = .Incr key delta) :
    Exact sqlite serde config kv call r kv' ↔ SumsFit serde config kv call := by
  obtain ⟨req, swept_at, now_ms, sweep_fault, fault⟩ := call
  dsimp only at hreq
  subst hreq
  have hleft : ∀ t, swept_at ≤ t → (kv.sweep swept_at).live key t = kv.live key t :=
    fun t ht => live_sweep ht
  unfold Exact SumsFit
  dsimp only
  rcases exec_call h with ⟨e, hsweep, rfl, rfl⟩ | ⟨hsweep, hdispatch⟩
  · dsimp only at hsweep
    subst hsweep
    exact ⟨fun _ hnone => (nomatch hnone), fun _ => .inr ⟨⟨e, rfl⟩, fun _ _ => rfl⟩⟩
  obtain ⟨r, hr, rfl⟩ := exec_map hdispatch
  cases fault with
  | some e =>
    obtain ⟨rfl, rfl⟩ := Prod.mk.inj hr
    exact ⟨fun _ _ hnone => (nomatch hnone), fun _ => .inr ⟨⟨e, rfl⟩, hleft⟩⟩
  | none =>
  dsimp only at hr
  rw [exec_incr] at hr
  cases hnew : new_counter serde key delta ((kv.sweep swept_at).live key now_ms) with
  | error e =>
    rw [hnew] at hr
    obtain ⟨rfl, rfl⟩ := Prod.mk.inj hr
    refine ⟨fun _ _ _ row hrow n hn => ?_, fun _ => .inr ⟨⟨e, rfl⟩, hleft⟩⟩
    rw [hrow, new_counter_of_counter hn] at hnew
    cases hnew
  | ok n =>
    rw [hnew] at hr
    obtain ⟨rfl, rfl⟩ := Prod.mk.inj hr
    constructor
    · rintro (⟨old, -, hold, hreply, -⟩ | ⟨⟨e, he⟩, -⟩) - - row hrow m hm
      · rw [hrow] at hold
        obtain rfl := Option.some.inj (hold.symm.trans hm)
        have hsum : n.toInt = old + delta.toInt := by
          simpa [Except.map] using hreply
        rw [← hsum]
        exact inI64_toInt n
      · cases he
    · intro hfit
      obtain ⟨old, hold, hsum⟩ : ∃ old,
          counted serde key ((kv.sweep swept_at).live key now_ms) = some old ∧
            n.toInt = old + delta.toInt := by
        cases hlive : (kv.sweep swept_at).live key now_ms with
        | none =>
          rw [hlive] at hnew
          obtain rfl := Except.ok.inj hnew
          exact ⟨0, rfl, (Int.zero_add _).symm⟩
        | some row =>
          rw [hlive] at hnew
          obtain ⟨m, hm, hin, rfl⟩ := of_new_counter hnew
          exact ⟨m, hm, toInt_ofInt_add hin (hfit hsweep rfl row hlive m hm)⟩
      refine .inl ⟨old, _, hold, ?_, Std.ExtTreeMap.getElem?_insert_self, ?_⟩
      · rw [← hsum]
        rfl
      · rw [← hsum]
        exact toString_eq_print n

/-- A value with a time to live is found for that time exactly if its end is in range. -/
theorem exact_set_iff {call : Call} {r : Reply} {ttl_ms : Int64}
    (h : CallStep sqlite serde config kv (call, r) kv') (hreq : call.req = .Set key value (some ttl_ms)) :
    Exact sqlite serde config kv call r kv' ↔ SumsFit serde config kv call := by
  obtain ⟨req, swept_at, now_ms, sweep_fault, fault⟩ := call
  dsimp only at hreq
  subst hreq
  unfold Exact SumsFit
  dsimp only
  rcases exec_call h with ⟨e, hsweep, rfl, rfl⟩ | ⟨hsweep, hdispatch⟩
  · dsimp only at hsweep
    subst hsweep
    exact ⟨fun _ hnone => (nomatch hnone), fun _ _ hreply => (nomatch hreply)⟩
  obtain ⟨r, hr, rfl⟩ := exec_map hdispatch
  cases fault with
  | some e =>
    have hfail : ∃ e, r = .error e := by
      rw [handle_set] at hr
      dsimp only at hr
      split_ifs at hr with hlarge
      · exact ⟨_, (Prod.mk.inj hr).1.symm⟩
      · exact ⟨_, (Prod.mk.inj hr).1.symm⟩
    obtain ⟨e, rfl⟩ := hfail
    exact ⟨fun _ _ hnone => (nomatch hnone), fun _ _ hreply => (nomatch hreply)⟩
  | none =>
  dsimp only at hr
  rw [exec_set] at hr
  split_ifs at hr with hlarge
  · obtain ⟨rfl, rfl⟩ := Prod.mk.inj hr
    exact ⟨fun _ _ _ hsmall => absurd hlarge (Nat.not_lt.mpr hsmall), fun _ _ hreply => (nomatch hreply)⟩
  · obtain ⟨rfl, rfl⟩ := Prod.mk.inj hr
    constructor
    · intro hexact _ _ _
      exact readable_set_iff.mp (hexact _ rfl)
    · intro hfit reply _
      exact readable_set_iff.mpr (hfit hsweep rfl (Nat.not_lt.mp hlarge))

/-- The sums of the counters and of the times of expiry are exact in exactly the calls in which they are
    in range. -/
theorem arithmetic_exact_iff {call : Call} {r : Reply}
    (h : CallStep sqlite serde config kv (call, r) kv') :
    Exact sqlite serde config kv call r kv' ↔ SumsFit serde config kv call := by
  cases hreq : call.req with
  | Incr key delta => exact exact_incr_iff h hreq
  | Set key value ttl_ms =>
    cases ttl_ms with
    | some ttl_ms => exact exact_set_iff h hreq
    | none => simp only [Exact, SumsFit, hreq, implies_true]
  | _ => simp only [Exact, SumsFit, hreq, implies_true]

theorem counter_of_print {n : Int} (hn : InI64 n) (h : row.value = (Json.int n).print) :
    counter serde key row = some n := by
  have hread : serde.reread (.int n) = .int n := serde.reread_int hn.1 (by
    have hhi := hn.2
    omega)
  rw [counter, decode_print h, hread]
  exact if_pos hn

/-- The largest counter. -/
def full : Kv :=
  Std.ExtTreeMap.empty.insert "hits"
    { value := (Json.int (2 ^ 63 - 1)).print, updated_at := 0, expires_at := none }

theorem live_full : full.live "hits" 1000 =
    some { value := (Json.int (2 ^ 63 - 1)).print, updated_at := 0, expires_at := none } := by
  rw [live_eq_some, full, Table.getElem?_insert_ite, if_pos rfl]
  exact ⟨rfl, rfl⟩

theorem callStep_full : CallStep wholeValue .compact tinyCap full
    (callNow (.Incr "hits" 1), .ok (.obj [("ok", .bool true), ("value", .int (-2 ^ 63))],
      some { action := "db_incr", key := "hits" }))
    ((full.sweep 1000).upsert "hits" (toString Int64.minValue) 1000) := by
  refine callStep_incr (n := Int64.minValue) ?_
  rw [live_sweep (by decide), live_full,
    new_counter_of_counter (counter_of_print (n := 2 ^ 63 - 1) ⟨by decide, by decide⟩ rfl)]
  rfl

theorem arithmetic_exact_iff_full :
    Exact wholeValue .compact tinyCap full (callNow (.Incr "hits" 1))
        (.ok (.obj [("ok", .bool true), ("value", .int (-2 ^ 63))],
          some { action := "db_incr", key := "hits" }))
        ((full.sweep 1000).upsert "hits" (toString Int64.minValue) 1000) ↔
      SumsFit .compact tinyCap full (callNow (.Incr "hits" 1)) :=
  arithmetic_exact_iff callStep_full

/-- The largest counter becomes the smallest. -/
theorem full_counter_wraps : ∃ r kv',
    CallStep wholeValue .compact tinyCap full (callNow (.Incr "hits" 1), r) kv' ∧
      ¬ Exact wholeValue .compact tinyCap full (callNow (.Incr "hits" 1)) r kv' := by
  refine ⟨_, _, callStep_full, fun h => ?_⟩
  have hfit := (exact_incr_iff callStep_full rfl).mp h rfl rfl
  have hlive : (full.sweep 1000).live "hits" 1000 = some
      { value := (Json.int (2 ^ 63 - 1)).print, updated_at := 0, expires_at := none } := by
    rw [live_sweep (by decide), live_full]
  have hin := (hfit _ hlive _ (counter_of_print (n := 2 ^ 63 - 1) ⟨by decide, by decide⟩ rfl)).2
  revert hin
  decide

end Database
