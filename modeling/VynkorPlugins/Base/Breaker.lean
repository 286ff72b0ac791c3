import Mathlib.Data.List.Basic

/-!
# Circuit breakers

What a circuit breaker promises, in terms of the answers to the calls behind it. It opens at some
number of rejections in a row; the cooldown runs from the time at which the last of these has been
reported to it; then one call may get through, and its answer decides.
-/

namespace Breaker

variable {ι : Type} [DecidableEq ι]

inductive Answer where
  | success
  | rejected
  | other

/-- Open, the breaker has rejections that are still to be reported; they are those of a row, or the
    one of the call that was let through after a cooldown. -/
inductive Mode (ι : Type) where
  | closed
  | opened (awaiting : List ι) (since : Nat) (again : Bool)
  | probing (i : ι)

/-- How a breaker should be: the rejections in a row, and those of them that are not reported yet. -/
structure Watch (ι : Type) where
  mode : Mode ι
  streak : Nat
  unreported : List ι

def Watch.start : Watch ι where
  mode := .closed
  streak := 0
  unreported := []

/-- A call may get through. -/
def Mode.Allows (cooldown now : Nat) : Mode ι → Prop
  | .closed => True
  | .opened awaiting since _ => awaiting = [] ∧ since + cooldown ≤ now
  | .probing _ => False

/-- The calls whose rejections are still to be reported before the cooldown. -/
def Mode.awaiting : Mode ι → List ι
  | .opened awaiting _ _ => awaiting
  | .closed | .probing _ => []

namespace Watch

variable (w : Watch ι)

/-- A call gets through. -/
def pass (i : ι) : Watch ι :=
  match w.mode with
  | .opened .. => { mode := .probing i, streak := 0, unreported := [] }
  | .closed | .probing _ => w

/-- A call of the row is rejected. -/
def reject (threshold now : Nat) (i : ι) : Watch ι :=
  let streak := w.streak + 1
  let unreported := i :: w.unreported
  match w.mode with
  | .opened .. => { w with streak, unreported }
  | .probing j =>
    if i = j then { mode := .opened [i] now true, streak, unreported }
    else if threshold ≤ streak then { mode := .opened unreported now false, streak, unreported }
    else { w with streak, unreported }
  | .closed =>
    if threshold ≤ streak then { mode := .opened unreported now false, streak, unreported }
    else { w with streak, unreported }

/-- The row ends. -/
def settle (i : ι) : Watch ι :=
  { mode := match w.mode with
      | .probing j => if i = j then .closed else .probing j
      | mode => mode
    streak := 0
    unreported := [] }

def answer (threshold now : Nat) (i : ι) : Answer → Watch ι
  | .rejected => w.reject threshold now i
  | .success | .other => w.settle i

/-- The rejection of a call is reported. -/
def report (now : Nat) (i : ι) : Watch ι :=
  { w with
    unreported := w.unreported.erase i
    mode := match w.mode with
      | .opened awaiting since again =>
        if i ∈ awaiting then .opened (awaiting.erase i) now again else .opened awaiting since again
      | mode => mode }

end Watch

end Breaker
