import Mathlib.Logic.Function.Basic
import VynkorPlugins.Base.Breaker
import VynkorPlugins.Base.Transition
import VynkorPlugins.Telegram.Antiban

/-!
# Calls of an account

Any number of actions at a time. Each one tries `check` until it gets through or is refused, calls
Telegram, and is answered; a flood wait sleeps for any time before it is counted. Beside them a
breaker as it should be watches the answers of one account.
-/

namespace Telegram

open Breaker

/-- Where `handle_action` is. -/
inductive Phase where
  | checking
  | calling
  | on_flood_wait (seconds : UInt64)
  | done
deriving DecidableEq

/-- The end of `handle_action`: the flood waits are reported. -/
def finish (result : Except String Unit) : Phase :=
  match result with
  | .ok () => .done
  | .error err =>
    match parse_flood_wait_seconds err with
    | some seconds => .on_flood_wait seconds
    | none => .done

/-- What an answer of Telegram is to the breaker. -/
def answerOf (result : Except String Unit) : Answer :=
  match result with
  | .ok () => .success
  | .error err => if (parse_flood_wait_seconds err).isSome then .rejected else .other

/-- The watched breaker, and what it was when a call of its account got through. -/
structure Watched where
  watch : Watch Nat
  passes : List (Mode Nat × Nat)

structure World (b : Bucket) where
  now : Nat
  antiban : Antiban b
  calls : Nat → Phase
  watched : Watched

/-- The time goes on; a call tries `check`; a call is answered; the sleep of a flood wait is over. -/
inductive Label where
  | tick (now : Nat)
  | attempt (i : Nat)
  | answer (i : Nat) (result : Except String Unit)
  | report (i : Nat)

namespace World

variable {b : Bucket} (account : Nat → String) (watched : String) (w : World b)

def attempt (i : Nat) : World b :=
  let r := w.antiban.check (account i) w.now
  { w with
    antiban := r.2
    calls := Function.update w.calls i
      (match r.1 with
      | .passed => .calling
      | .wait _ => .checking
      | .refused error => finish (.error ("antiban: " ++ error)))
    watched :=
      if account i = watched ∧ r.1 = .passed then
        { watch := w.watched.watch.pass i
          passes := (w.watched.watch.mode, w.now) :: w.watched.passes }
      else w.watched }

def answer (i : Nat) (result : Except String Unit) : World b :=
  { w with
    calls := Function.update w.calls i (finish result)
    watched :=
      if account i = watched then
        { w.watched with
          watch := w.watched.watch.answer CIRCUIT_OPEN_THRESHOLD w.now i (answerOf result) }
      else w.watched }

def report (i : Nat) : World b :=
  { w with
    antiban := w.antiban.on_flood_wait (account i) w.now
    calls := Function.update w.calls i .done
    watched :=
      if account i = watched then { w.watched with watch := w.watched.watch.report w.now i }
      else w.watched }

/-- The step of a label, where it can be taken. -/
def step : Label → Option (World b)
  | .tick now => if w.now ≤ now then some { w with now } else none
  | .attempt i => if w.calls i = .checking then some (w.attempt account watched i) else none
  | .answer i result => if w.calls i = .calling then some (w.answer account watched i result) else none
  | .report i =>
    match w.calls i with
    | .on_flood_wait _ => some (w.report account watched i)
    | _ => none

end World

/-- No call has begun. -/
def World.start {b : Bucket} (now : Nat) : World b where
  now
  antiban := ∅
  calls _ := .checking
  watched := { watch := .start, passes := [] }

abbrev Step {b : Bucket} (account : Nat → String) (watched : String) (w : World b) (l : Label)
    (w' : World b) : Prop :=
  w.step account watched l = some w'

/-- The entry of the watched account. -/
def World.entry {b : Bucket} (w : World b) (watched : String) : AccountState b :=
  w.antiban.entry watched w.now

/-- A check forgets the counted flood waits only while none of the current row is counted; no check is
    tried while a flood wait that trips the breaker sleeps, nor while the call after a cooldown is not
    answered; and where this call has a flood wait, two others are counted before it is. -/
def Careful {b : Bucket} (account : Nat → String) (watched : String) (w : World b) : Label → Prop
  | .attempt i => account i = watched →
    match w.watched.watch.mode with
    | .closed =>
      ((w.entry watched).check watched w.now).2.consecutive_flood_waits = 0 →
        w.watched.watch.streak ≤ w.watched.watch.unreported.length
    | .opened awaiting _ _ => awaiting = []
    | .probing _ => False
  | .report i => account i = watched →
    match w.watched.watch.mode with
    | .opened [j] _ true => i = j → 2 ≤ (w.entry watched).consecutive_flood_waits
    | _ => True
  | .tick _ | .answer .. => True

instance {b : Bucket} (account : Nat → String) (watched : String) (w : World b) (l : Label) :
    Decidable (Careful account watched w l) := by
  unfold Careful
  split
  · refine @instDecidableForall _ _ inferInstance ?_
    split <;> infer_instance
  · refine @instDecidableForall _ _ inferInstance ?_
    split <;> infer_instance
  · exact isTrue trivial
  · exact isTrue trivial

end Telegram
