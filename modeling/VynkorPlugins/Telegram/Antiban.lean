import VynkorPlugins.Base.Rust
import VynkorPlugins.Base.Table

/-!
# Antiban

The rate limiter and circuit breaker of the `telegram` plugin (`mtproto/antiban.rs`), and how an
action reports its flood waits to it (`handle_action`). Times are in nanoseconds.
-/

namespace Telegram

/-- A token bucket: `TokenBucket`, which counts its tokens in floating point. -/
structure Bucket where
  State : Type
  new : Nat → State
  /-- One token, or the wait until the next one. -/
  try_acquire_at : State → Nat → Except Nat Unit × State

def CIRCUIT_OPEN_THRESHOLD : Nat := 3

def CIRCUIT_COOLDOWN : Nat := 300 * 10 ^ 9

structure AccountState (b : Bucket) where
  bucket : b.State
  consecutive_flood_waits : Nat
  circuit_open : Bool
  circuit_opened_at : Option Nat

/-- What a try of `check` comes to. -/
inductive Gate where
  | passed
  | wait (ns : Nat)
  | refused (error : String)
deriving DecidableEq

namespace AccountState

variable {b : Bucket}

def new (now : Nat) : AccountState b where
  bucket := b.new now
  consecutive_flood_waits := 0
  circuit_open := false
  circuit_opened_at := none

/-- A token breaks the streak. -/
def acquire (entry : AccountState b) (now : Nat) : Gate × AccountState b :=
  match b.try_acquire_at entry.bucket now with
  | (.ok (), bucket) => (.passed, { entry with bucket, consecutive_flood_waits := 0 })
  | (.error wait, bucket) => (.wait wait, { entry with bucket })

def cooled_down (entry : AccountState b) (now : Nat) : Bool :=
  match entry.circuit_opened_at with
  | some opened_at => CIRCUIT_COOLDOWN ≤ now - opened_at
  | none => true

/-- The half-open breaker. -/
def half_open (entry : AccountState b) : AccountState b :=
  { entry with circuit_open := false, circuit_opened_at := none, consecutive_flood_waits := 0 }

/-- The body of the loop of `check`. -/
def check (entry : AccountState b) (account : String) (now : Nat) : Gate × AccountState b :=
  if entry.circuit_open then
    if entry.cooled_down now then entry.half_open.acquire now
    else (.refused ("antiban: circuit open for account " ++ account), entry)
  else entry.acquire now

/-- What `on_flood_wait` does after its sleep. -/
def on_flood_wait (entry : AccountState b) (now : Nat) : AccountState b :=
  let count := entry.consecutive_flood_waits + 1
  if CIRCUIT_OPEN_THRESHOLD ≤ count then
    { entry with
      consecutive_flood_waits := count, circuit_open := true, circuit_opened_at := some now }
  else { entry with consecutive_flood_waits := count }

end AccountState

/-- The state of the accounts that have been seen. -/
abbrev Antiban (b : Bucket) := Table String (AccountState b)

namespace Antiban

variable {b : Bucket}

/-- `entry(account).or_insert_with(AccountState::new)` -/
def entry (state : Antiban b) (account : String) (now : Nat) : AccountState b :=
  state[account]?.getD (.new now)

def check (state : Antiban b) (account : String) (now : Nat) : Gate × Antiban b :=
  let r := (state.entry account now).check account now
  (r.1, state.insert account r.2)

def on_flood_wait (state : Antiban b) (account : String) (now : Nat) : Antiban b :=
  state.insert account ((state.entry account now).on_flood_wait now)

def is_circuit_open (state : Antiban b) (account : String) : Bool :=
  (state[account]?.map AccountState.circuit_open).getD false

end Antiban

/-! ## Actions -/

/-- What follows the first occurrence of a pattern. -/
def after (pattern : List Char) : List Char → Option (List Char)
  | [] => if pattern = [] then some [] else none
  | c :: cs =>
    if pattern.isPrefixOf (c :: cs) then some ((c :: cs).drop pattern.length) else after pattern cs

/-- The seconds of a flood wait that an error text tells. -/
def parse_flood_wait_seconds (err : String) : Option UInt64 := do
  let rest ← after "FLOOD_WAIT".toList err.toList
  let value ← after "(value: ".toList ("FLOOD_WAIT".toList ++ rest)
  if ')' ∈ value then
    Rust.parseU64 (Rust.trim (String.ofList (value.takeWhile fun c => c ≠ ')')))
  else none

/-- A bucket of eight tokens, eight for each second, that counts exactly. -/
def Bucket.exact : Bucket where
  State := Nat × Nat
  new now := (8 * 10 ^ 9, now)
  try_acquire_at s now :=
    let tokens := min (s.1 + 8 * (now - s.2)) (8 * 10 ^ 9)
    if 10 ^ 9 ≤ tokens then (.ok (), (tokens - 10 ^ 9, max s.2 now))
    else (.error ((10 ^ 9 - tokens + 7) / 8), (tokens, max s.2 now))

end Telegram
