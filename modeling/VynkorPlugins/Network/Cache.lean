import Mathlib.Data.List.MinMax
import VynkorPlugins.Base.Rust
import VynkorPlugins.Base.Table
import VynkorPlugins.Base.Transition

/-!
# The response cache

The responses that the plugin keeps (`CacheStore`), and the requests that look into them and add to
them (`run_http_request`). A request locks the store before and after its fetch, so that others come
between the two.
-/

namespace Network

def cacheMaxEntries : Nat := 128

def cacheMaxTotalBytes : Nat := 8 * 1024 * 1024

structure CacheEntry where
  stored_at_ms : Nat
  expires_at_ms : Nat
  status : Nat
  headers : List (String × String)
  body : List UInt8
  body_encoding : String
deriving DecidableEq

structure CacheStore where
  entries : Table String CacheEntry := ∅
  total_bytes : Nat := 0

/-- The order in which the map of the entries is iterated. -/
structure Iteration where
  entries : Table String CacheEntry → List (String × CacheEntry)
  perm : ∀ t, (entries t).Perm t.toList

namespace CacheStore

variable (s : CacheStore) (iter : Iteration)

def get (key : String) (now_ms : Nat) : Option CacheEntry :=
  s.entries[key]?.filter fun e => now_ms ≤ e.expires_at_ms

/-- An entry is removed, and is no longer counted. -/
def remove (key : String) : CacheStore :=
  match s.entries[key]? with
  | some old => { entries := s.entries.erase key, total_bytes := s.total_bytes - old.body.length }
  | none => s

/-- `min_by_key`: the first of the oldest entries. -/
def oldest : Option (String × CacheEntry) :=
  (iter.entries s.entries).argmin fun e => e.2.stored_at_ms

/-- The loop that evicts, in at most `n` rounds. -/
def evict : Nat → CacheStore → CacheStore
  | 0, s => s
  | n + 1, s =>
    if cacheMaxEntries < s.entries.size ∨ cacheMaxTotalBytes < s.total_bytes then
      match s.oldest iter with
      | some e => evict n (s.remove e.1)
      | none => s
    else s

/-- The entry takes the place of the one under its key. -/
def insert (key : String) (entry : CacheEntry) : CacheStore :=
  let s := s.remove key
  { entries := s.entries.insert key entry
    total_bytes := min (s.total_bytes + entry.body.length) (2 ^ 64 - 1) }

/-- A body that is larger than all of the cache leaves an older entry where it is. -/
def put (key : String) (entry : CacheEntry) : CacheStore :=
  if cacheMaxTotalBytes < entry.body.length then s
  else (s.insert key entry).evict iter (s.insert key entry).entries.size

end CacheStore

/-! ## Requests -/

/-- What of a request the cache goes by. `body_hash` is what `request_body_hash` gives. -/
structure CachedRequest where
  caller_plugin_id : String
  method : String
  url : String
  body_hash : Nat
  cache_ttl_ms : Nat

/-- `cache_key`. -/
def CachedRequest.key (r : CachedRequest) : String :=
  String.ofList (r.caller_plugin_id.toList ++ '|' :: (r.method.toList ++ '|' ::
    (r.url.toList ++ '|' :: Nat.toDigits 16 r.body_hash)))

/-- A response, with the bytes of its body unless they cannot be decoded. -/
structure Fetched where
  status : Nat
  headers : List (String × String)
  body : Option (List UInt8)
  body_encoding : String

def isCacheable (status : Nat) (headers : List (String × String)) : Bool :=
  200 ≤ status && status < 300 && headers.all fun h =>
    !(h.1.toList.map Char.toLower == "cache-control".toList
      && Rust.contains (String.ofList (h.2.toList.map Char.toLower)) "no-store")

/-- What a response leaves in the cache. -/
def Fetched.entry (resp : Fetched) (r : CachedRequest) (now_ms : Nat) : Option CacheEntry :=
  if 0 < r.cache_ttl_ms ∧ isCacheable resp.status resp.headers then
    resp.body.map fun body =>
      { stored_at_ms := now_ms, expires_at_ms := min (now_ms + r.cache_ttl_ms) (2 ^ 64 - 1)
        status := resp.status, headers := resp.headers, body, body_encoding := resp.body_encoding }
  else none

inductive CacheTask
  | received
  | fetching
  | answered
deriving DecidableEq

structure CacheWorld where
  store : CacheStore := {}
  tasks : Nat → CacheTask := fun _ => .received

/-- A request is answered from the cache, or goes on to its fetch, or has fetched. -/
inductive CacheLabel
  | hit (i now_ms : Nat) (entry : CacheEntry)
  | miss (i now_ms : Nat)
  | fetched (i now_ms : Nat) (iter : Iteration) (result : Except String Fetched)

namespace CacheWorld

variable (requests : Nat → CachedRequest) (w : CacheWorld)

/-- A request without a lifetime for its response does not look. -/
def lookup (i now_ms : Nat) : Option CacheEntry :=
  if 0 < (requests i).cache_ttl_ms then w.store.get (requests i).key now_ms else none

def store_response (i now_ms : Nat) (iter : Iteration) : Except String Fetched → CacheStore
  | .error _ => w.store
  | .ok resp =>
    match resp.entry (requests i) now_ms with
    | some entry => w.store.put iter (requests i).key entry
    | none => w.store

def step : CacheLabel → Option CacheWorld
  | .hit i now_ms entry =>
    if w.tasks i = .received ∧ w.lookup requests i now_ms = some entry then
      some { w with tasks := Function.update w.tasks i .answered }
    else none
  | .miss i now_ms =>
    if w.tasks i = .received ∧ w.lookup requests i now_ms = none then
      some { w with tasks := Function.update w.tasks i .fetching }
    else none
  | .fetched i now_ms iter result =>
    if w.tasks i = .fetching then
      some { store := w.store_response requests i now_ms iter result
             tasks := Function.update w.tasks i .answered }
    else none

variable {requests w} {i now_ms : Nat} {w' : CacheWorld}

theorem step_hit {entry : CacheEntry} (h : w.step requests (.hit i now_ms entry) = some w') :
    w.lookup requests i now_ms = some entry ∧ w'.store = w.store := by
  obtain ⟨hmay, h⟩ := Option.ite_none_right_eq_some.mp h
  obtain rfl := Option.some.inj h
  exact ⟨hmay.2, rfl⟩

theorem step_miss (h : w.step requests (.miss i now_ms) = some w') : w'.store = w.store := by
  obtain ⟨-, h⟩ := Option.ite_none_right_eq_some.mp h
  obtain rfl := Option.some.inj h
  rfl

theorem step_fetched {iter : Iteration} {result : Except String Fetched}
    (h : w.step requests (.fetched i now_ms iter result) = some w') :
    w'.store = w.store_response requests i now_ms iter result := by
  obtain ⟨-, h⟩ := Option.ite_none_right_eq_some.mp h
  obtain rfl := Option.some.inj h
  rfl

end CacheWorld

/-- The key and the entry that a step puts into the cache. -/
def CacheLabel.stored (requests : Nat → CachedRequest) : CacheLabel → Option (String × CacheEntry)
  | .fetched i now_ms _ (.ok resp) =>
    ((resp.entry (requests i) now_ms).filter fun e => e.body.length ≤ cacheMaxTotalBytes).map
      fun e => ((requests i).key, e)
  | _ => none

/-- The last entry that a run has put under a key. -/
def latest (requests : Nat → CachedRequest) (key : String) (trace : List CacheLabel) :
    Option CacheEntry :=
  trace.findSome? fun l => (l.stored requests).bind fun put => if put.1 = key then some put.2 else none

/-- The cache keeps to its limits, and its counter to what it holds. -/
structure CacheStore.Sound (s : CacheStore) : Prop where
  size : s.entries.size ≤ cacheMaxEntries
  bytes : s.total_bytes ≤ cacheMaxTotalBytes
  counted : s.total_bytes = (s.entries.toList.map fun e => e.2.body.length).sum

end Network
