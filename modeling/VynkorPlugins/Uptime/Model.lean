import VynkorPlugins.Base.Json

/-!
# Targets and their outages

The data of the `uptime` plugin (`store.rs`), the requests on it and the pure step of an outage
(`advance`).
-/

namespace Uptime

structure Target where
  id : String
  url : String
  created_at_ms : Int64

/-- The outage of one target. -/
structure TargetState where
  fail_streak : Nat
  down_since_ms : Option Int64
  alerting : Bool
deriving DecidableEq

/-- `TargetState::default` -/
def TargetState.default : TargetState where
  fail_streak := 0
  down_since_ms := none
  alerting := false

structure Check where
  id : String
  url : String
  timestamp_ms : Int64
  ok : Bool
  status : Int32
  latency_ms : UInt64
  error : Option String

structure CheckResult where
  ok : Bool
  status : Int32
  latency_ms : UInt64
  error : Option String

inductive UptimeRequest where
  | Add (url : String)
  | Remove (id : String)
  | List
  | Check (url : String) (timeout_ms : UInt64)
  | History (url : Option String) (limit offset : Nat)
  | Status

/-! ## Checks -/

/-- What an answer of `http_request` says of the target. -/
def CheckResult.of (res : Except String Json) (latency_ms : UInt64) : CheckResult :=
  match res with
  | .ok v =>
    let status : Int32 := Int32.ofInt (((v.get "status").bind Json.asI64).getD 0)
    let ok := 200 ≤ status && status < 300
    { ok, status, latency_ms, error := if ok then none else some ("HTTP " ++ toString status) }
  | .error e => { ok := false, status := 0, latency_ms, error := some e }

/-! ## Outages -/

/-- What an alert is about. -/
inductive Alert where
  | check_failed
  | recovered
deriving DecidableEq

def Alert.event_type : Alert → String
  | .check_failed => "check_failed"
  | .recovered => "recovered"

def optStr (s : Option String) : Json := (s.map Json.str).getD .null

/-- The largest `u32`. -/
def u32Max : Nat := 2 ^ 32 - 1

/-- One check of a target, and the event it makes. -/
def advance (t : TargetState) (url : String) (res : CheckResult) (now : Int64) (threshold : Nat) :
    TargetState × Option (Alert × Json) :=
  if res.ok then
    let down_for_ms := (t.down_since_ms.map fun s => max (now - s) 0).getD 0
    let event :=
      if t.alerting then
        some (.recovered, .obj
          [("down_for_ms", .int down_for_ms.toInt), ("failures", .int t.fail_streak), ("url", .str url)])
      else none
    ({ fail_streak := 0, down_since_ms := none, alerting := false }, event)
  else
    let fail_streak := min (t.fail_streak + 1) u32Max
    let t := { t with fail_streak, down_since_ms := some (t.down_since_ms.getD now) }
    if t.alerting || fail_streak < threshold then (t, none)
    else
      ({ t with alerting := true },
        some (.check_failed, .obj
          [("error", optStr res.error), ("failures", .int fail_streak),
           ("status", .int res.status.toInt), ("url", .str url)]))

section

variable {t : TargetState} {url : String} {res : CheckResult} {now : Int64} {threshold : Nat}

/-- An alert is made exactly when the state turns. -/
theorem advance_event : (advance t url res now threshold).2.map Prod.fst =
    if (advance t url res now threshold).1.alerting = t.alerting then none
    else if (advance t url res now threshold).1.alerting then some .check_failed
    else some .recovered := by
  unfold advance
  by_cases hok : res.ok = true
  · rw [if_pos hok]
    cases halerting : t.alerting with
    | true => simp
    | false => simp
  · rw [if_neg hok]
    dsimp only
    by_cases hsilent : (t.alerting || decide (min (t.fail_streak + 1) u32Max < threshold)) = true
    · rw [if_pos hsilent]
      simp
    · rw [if_neg hsilent]
      have hoff : t.alerting = false := by
        cases halerting : t.alerting with
        | true => simp [halerting] at hsilent
        | false => rfl
      simp [hoff]

/-- A target that answers is not down. -/
theorem advance_ok (h : res.ok = true) :
    (advance t url res now threshold).1 = .default := by
  unfold advance
  rw [if_pos h]
  rfl

/-- A failed check counts for one, and an outage alerts at the threshold. -/
theorem advance_failed (h : res.ok = false) :
    (advance t url res now threshold).1.fail_streak ≤ t.fail_streak + 1 ∧
      ((advance t url res now threshold).1.alerting = true → t.alerting = false →
        threshold ≤ (advance t url res now threshold).1.fail_streak) ∧
      (t.alerting = true → (advance t url res now threshold).1.alerting = true) := by
  unfold advance
  rw [if_neg (by simp [h])]
  dsimp only
  split_ifs with hsilent
  · refine ⟨Nat.min_le_left _ _, fun hon hoff => ?_, fun hon => hon⟩
    rw [hoff] at hon
    cases hon
  · refine ⟨Nat.min_le_left _ _, fun _ _ => ?_, fun _ => rfl⟩
    simp only [Bool.or_eq_true, decide_eq_true_eq, not_or, Nat.not_lt] at hsilent
    exact hsilent.2

end

end Uptime
