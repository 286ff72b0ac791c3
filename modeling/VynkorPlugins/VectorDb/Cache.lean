import VynkorPlugins.Base.Async
import VynkorPlugins.VectorDb.Reembed
import VynkorPlugins.VectorDb.Scan

/-!
# The cache

The operations of `VecCache`. Each access to what the operations share is one effect: a lock, an atomic
counter, what a lock guards, a statement or a transaction on the file of the caller. A loop is bounded
by `fuel`; an operation that has used it up does not move any more.
-/

namespace VectorDb

open Async

structure CacheConfig where
  max_bytes : Nat
  idle_ms : Int

/-- A caller and a collection. -/
abbrev Key := String × String

namespace VecCache

inductive Eff (F : Type)
  /-- Whether the future is dropped while it waits for what comes next. -/
  | dropped
  | never
  -- the map of the slots
  | existing_slot (key : Key)
  | slot (key : Key)
  | slots
  | touch (key : Key)
  | last_used (key : Key)
  -- the locks of a slot
  | lock_writer (key : Key)
  | unlock_writer (key : Key)
  | read (key : Key)
  | unlock_read (key : Key)
  | write (key : Key)
  | try_write (key : Key)
  | unlock_write (key : Key)
  -- the copy that the state lock guards
  | copy (key : Key)
  | take (key : Key)
  | push (key : Key) (rows : List (UpsertRow F))
  | remove (key : Key) (id : String)
  /-- Stores the size and the copy, and disarms the reservation. Only the first is seen by others. -/
  | install (key : Key) (l : Loaded F)
  -- the counters
  | bytes (key : Key)
  | store_bytes (key : Key) (n : Nat)
  | swap_bytes (key : Key)
  | total
  | try_reserve (n : Nat)
  | release (n : Nat)
  /-- What the reservation of the load stands for from now on. -/
  | reserved (n : Nat)
  | drop_reservation
  -- the file of the caller
  | collection_dim (key : Key)
  | estimate (key : Key) (dim : Nat)
  | page (key : Key) (last : Nat)
  | upsert (key : Key) (dim : Nat) (model : Option String) (rows : List (UpsertRow F))
  | delete (key : Key) (id : String)
  | swap_reembedded (key : Key) (model : String)

/-- `push` and `remove` answer how large the copy has become, if there is one. -/
@[reducible] def Eff.Answer {F : Type} : Eff F → Type
  | .dropped => Bool
  | .never => Empty
  | .existing_slot _ => Bool
  | .slots => List Key
  | .last_used _ => Int
  | .try_write _ => Bool
  | .copy _ => Option (Loaded F)
  | .take _ => Bool
  | .push .. | .remove .. => Option Nat
  | .bytes _ | .swap_bytes _ | .total => Nat
  | .try_reserve _ => Bool
  | .collection_dim _ => Except String (Option Nat)
  | .estimate .. => Except String Nat
  | .page .. => Except String (List (Nat × Row F))
  | .upsert .. => Except String Unit
  | .delete .. => Except String Bool
  | .swap_reembedded .. => Except String SwapOutcome
  | _ => Unit

abbrev Act (F α : Type) := Async (Eff F) Eff.Answer α

section

variable {F S α : Type}

def await (e : Eff F) : Act F e.Answer := perform e

/-- What an operation does that has used up its fuel. -/
def never : Act F α :=
  .call .never nofun

/-! ## Accounting -/

/-- The first of the least recently used slots that take up memory. -/
def victim (keep : Key) : List Key → Option (Key × Int) → Act F (Option Key)
  | [], best => return best.map Prod.fst
  | key :: keys, best =>
    if key = keep then victim keep keys best
    else do
      let b ← await (.bytes key)
      if b > 0 then
        let t ← await (.last_used key)
        if best.all fun k => t < k.2 then victim keep keys (some (key, t))
        else victim keep keys best
      else victim keep keys best

def drop_bytes (key : Key) : Act F Unit := do
  let b ← await (.swap_bytes key)
  await (.release b)

/-- Drops the copy of a slot whose write guard is held, and answers whether there was one. -/
def unload (key : Key) : Act F Bool := do
  let some ← await (.take key)
  if some then
    drop_bytes key
    return true
  else return false

/-- Makes room for `need` bytes by unloading the least recently used collections. -/
def make_room (c : CacheConfig) (keep : Key) (need : Nat) : Nat → Act F Unit
  | 0 => never
  | fuel + 1 => do
    let total ← await .total
    if total + need ≤ c.max_bytes then return ()
    else
      let keys ← await .slots
      match ← victim keep keys none with
      | none => return ()
      | some v =>
        let locked ← await (.try_write v)
        -- in use right now: not evictable this round
        if locked then
          let _ ← unload v
          await (.unlock_write v)
          make_room c keep need fuel
        else return ()

def reserve_with_eviction (c : CacheConfig) (keep : Key) (n fuel : Nat) : Act F Bool := do
  let reserved ← await (.try_reserve n)
  if reserved then return true
  else
    make_room c keep n fuel
    await (.try_reserve n)

/-- Re-accounts a slot whose copy has changed its size to `new`. -/
def account (c : CacheConfig) (key : Key) (new fuel : Nat) : Act F Bool := do
  let old ← await (.bytes key)
  if new > old then
    let room ← reserve_with_eviction c key (new - old) fuel
    if room then
      await (.store_bytes key new)
      return true
    else return false
  else
    await (.release (old - new))
    await (.store_bytes key new)
    return true

/-- What follows an update of a copy: with no room for it, it is unloaded. -/
def settle (c : CacheConfig) (key : Key) (fuel : Nat) (updated : Option Nat) : Act F Unit := do
  match updated with
  | none => return ()
  | some new =>
    let accounted ← account c key new fuel
    if accounted then return ()
    else
      let _ ← await (.take key)
      drop_bytes key

/-! ## Evicting -/

/-- Waits for the write guard to drop the copy. -/
def drop_copy (key : Key) : Act F Unit := do
  await (.write key)
  let _ ← unload key
  await (.unlock_write key)

/-- Drops a collection from memory. -/
def invalidate (key : Key) : Act F Unit := do
  await (.slot key)
  if ← await .dropped then return ()
  else
    await (.lock_writer key)
    if ← await .dropped then await (.unlock_writer key)
    else
      drop_copy key
      await (.unlock_writer key)

/-- Unloads one of the slots if it was not touched for longer than the idle window. -/
def evict_if_idle (c : CacheConfig) (now : Int) (key : Key) : Act F Nat := do
  let b ← await (.bytes key)
  if b = 0 then return 0
  else
    let t ← await (.last_used key)
    if now - t > c.idle_ms then
      let locked ← await (.try_write key)
      if locked then
        let unloaded ← unload key
        await (.unlock_write key)
        return if unloaded then 1 else 0
      else return 0
    else return 0

def evict_each (c : CacheConfig) (now : Int) : List Key → Act F Nat
  | [] => return 0
  | key :: keys => do
    let n ← evict_if_idle c now key
    let m ← evict_each c now keys
    return n + m

def evict_idle (c : CacheConfig) (now : Int) : Act F Nat := do
  let keys ← await .slots
  evict_each c now keys

/-! ## Writing -/

/-- The slot of a collection that must already exist in the file, and whether there is one. -/
def slot_if_collection_exists (key : Key) : Act F (Except String Bool) := do
  let existing ← await (.existing_slot key)
  if existing then return .ok true
  else
    match ← await (.collection_dim key) with
    | .error e => return .error e
    | .ok none => return .ok false
    | .ok (some _) =>
      await (.slot key)
      return .ok true

def upsert_inner (c : CacheConfig) (key : Key) (dim : Nat) (model : Option String)
    (rows : List (UpsertRow F)) (fuel : Nat) : Act F (Except String Nat) := do
  await (.slot key)
  await (.lock_writer key)
  match ← await (.upsert key dim model rows) with
  | .error e =>
    await (.unlock_writer key)
    return .error e
  | .ok () =>
    await (.write key)
    let updated ← await (.push key rows)
    settle c key fuel updated
    await (.touch key)
    await (.unlock_write key)
    await (.unlock_writer key)
    return .ok rows.length

def delete_inner (c : CacheConfig) (key : Key) (id : String) (fuel : Nat) :
    Act F (Except String Bool) := do
  match ← slot_if_collection_exists key with
  | .error e => return .error e
  | .ok false => return .ok false
  | .ok true =>
    await (.lock_writer key)
    match ← await (.delete key id) with
    | .error e =>
      await (.unlock_writer key)
      return .error e
    | .ok deleted =>
      await (.write key)
      let updated ← await (.remove key id)
      settle c key fuel updated
      await (.unlock_write key)
      await (.unlock_writer key)
      return .ok deleted

def swap_inner (key : Key) (model : String) : Act F (Except String SwapOutcome) := do
  await (.slot key)
  await (.lock_writer key)
  match ← await (.swap_reembedded key model) with
  | .error e =>
    await (.unlock_writer key)
    return .error e
  | .ok (.Stale n) =>
    await (.unlock_writer key)
    return .ok (.Stale n)
  | .ok (.Done n) =>
    -- still holding the writer lock: drop the stale copy
    drop_copy key
    await (.unlock_writer key)
    return .ok (.Done n)

/-! ## Searching -/

/-- What a query is answered, and nothing if its future is dropped or panics. -/
abbrev Hits (S : Type) := Option (Except String (List (String × S)))

structure Query (F : Type) where
  q : List F
  top_k : Nat
  filter : Option Meta

def mismatch_msg (key : Key) (dim : Nat) (q : List F) : String :=
  "dimension mismatch: collection '" ++ key.2 ++ "' dim " ++ toString dim ++ ", got " ++ toString q.length

/-- Rows scanned inline when the copy is small. -/
def INLINE_SCAN_FLOATS : Nat := 200000

variable [LinearOrder S]

section

variable (serde : Serde) (score : List F → List F → S) (key : Key) (r : Query F)

/-- The answer from a copy. A large one is scanned by a task of its own, which keeps the read guard even
    if the query is dropped. -/
def query_copy (l : Loaded F) : Act F (Hits S) := do
  if l.dim ≠ r.q.length then
    await (.unlock_read key)
    return some (.error (mismatch_msg key l.dim r.q))
  else
    let hits := scan_loaded score l r.q r.top_k r.filter
    if l.data.length > INLINE_SCAN_FLOATS then
      let dropped ← await .dropped
      await (.unlock_read key)
      if dropped then return none
      else return some (hits.elim (.error "task panicked") .ok)
    else
      await (.unlock_read key)
      return hits.map .ok

/-- The pages of a collection, one after another, without a result if the future is dropped. -/
def pages {σ : Type} (body : σ → Nat × Row F → σ) :
    Nat → Nat → σ → Act F (Option (Except String σ))
  | 0, _, _ => never
  | fuel + 1, last, s => do
    if ← await .dropped then return none
    else
      match ← await (.page key last) with
      | .error e => return some (.error e)
      | .ok rows =>
        match rows.getLast? with
        | none => return some (.ok s)
        | some row => pages body fuel row.1 (rows.foldl body s)

def load (dim fuel : Nat) : Act F (Option (Except String (Loaded F))) :=
  pages key (Db.loadRow serde) fuel 0 (.new dim)

def query_sqlite (fuel : Nat) : Act F (Hits S) := do
  match ← pages key (scanRow serde score r.q r.top_k r.filter) fuel 0 ([], ∅) with
  | none => return none
  | some (.error e) => return some (.error e)
  | some (.ok s) =>
    return some (.ok (s.1.filterMap fun c => (s.2[c.idx]?).map fun id => (id, c.score)))

/-- What a query does once it has given the writer lock back. -/
inductive Loading (S : Type)
  | again
  | scan
  | stop (hits : Hits S)

/-- The reservation was made for an estimate: claims the rest, or gives back what is too much. -/
def adjust (c : CacheConfig) (est actual fuel : Nat) : Act F Bool := do
  if actual > est then
    let room ← reserve_with_eviction c key (actual - est) fuel
    if room then
      await (.reserved actual)
      return true
    else return false
  else if actual < est then
    await (.release (est - actual))
    await (.reserved actual)
    return true
  else return true

/-- Loads and installs the copy, under a reservation of `est` bytes. -/
def load_reserved (c : CacheConfig) (dim est fuel : Nat) : Act F (Loading S) := do
  match ← load serde key dim fuel with
  | none =>
    await .drop_reservation
    return .stop none
  | some (.error e) =>
    await .drop_reservation
    return .stop (some (.error e))
  | some (.ok loaded) =>
    let enough ← adjust key c est loaded.bytes fuel
    if enough then
      if ← await .dropped then
        await .drop_reservation
        return .stop none
      else
        await (.write key)
        await (.install key loaded)
        await (.unlock_write key)
        return .again
    else
      await .drop_reservation
      return .scan

/-- What the loader does, with the writer lock held, when the collection is not loaded. -/
def load_estimated (c : CacheConfig) (dim fuel : Nat) : Act F (Loading S) := do
  if ← await .dropped then return .stop none
  else
    match ← await (.estimate key dim) with
    | .error e => return .stop (some (.error e))
    | .ok est =>
      if est > c.max_bytes then return .scan
      else
        -- reserve before loading so concurrent loads cannot jointly overcommit
        let room ← reserve_with_eviction c key est fuel
        if room then
          await (.reserved est)
          load_reserved serde key c dim est fuel
        else return .scan

/-- Becomes the loader, or notices that someone else has loaded the collection. -/
def become_loader (c : CacheConfig) (fuel : Nat) : Act F (Loading S) := do
  if ← await .dropped then return .stop none
  else
    await (.read key)
    let l ← await (.copy key)
    await (.unlock_read key)
    if l.isSome then return .again
    else if ← await .dropped then return .stop none
    else
      match ← await (.collection_dim key) with
      | .error e => return .stop (some (.error e))
      | .ok none => return .stop (some (.ok []))
      | .ok (some dim) =>
        if dim ≠ r.q.length then return .stop (some (.error (mismatch_msg key dim r.q)))
        else load_estimated serde key c dim fuel

def query_loop (c : CacheConfig) : Nat → Act F (Hits S)
  | 0 => never
  | fuel + 1 => do
    if ← await .dropped then return none
    else
      await (.read key)
      match ← await (.copy key) with
      | some l => query_copy score key r l
      | none =>
        await (.unlock_read key)
        if ← await .dropped then return none
        else
          await (.lock_writer key)
          let loading ← become_loader (S := S) serde key r c fuel
          await (.unlock_writer key)
          match loading with
          | .again => query_loop c fuel
          | .scan => query_sqlite serde score key r fuel
          | .stop hits => return hits

/-- The best `(id, cosine)` for a normalized query vector. -/
def query (c : CacheConfig) (fuel : Nat) : Act F (Hits S) := do
  if ← await .dropped then return none
  else
    match ← slot_if_collection_exists key with
    | .error e => return some (.error e)
    | .ok false => return some (.ok [])
    | .ok true =>
      await (.touch key)
      query_loop serde score key r c fuel

end

end

end VecCache

end VectorDb
