import Mathlib.Data.List.Sort
import VynkorPlugins.Base.Rust
import VynkorPlugins.Base.Serde
import VynkorPlugins.Base.Table
import VynkorPlugins.Base.Transaction

/-!
# The store of the `chats` plugin

The tables (`schema.rs`) and the calls that read and change sessions and turns (`store.rs`). A
column that holds a JSON array of strings is the list of these strings, which such an array always
gives back.
-/

namespace Chats

open Rust

/-! ## Tables -/

inductive SessionState where
  | live
  | deleting
deriving DecidableEq, Repr

/-- A row of `sessions`. -/
structure Session where
  kind : String
  device : String
  source : String := ""
  title : String := ""
  started_at : Int
  last_at : Int
  summary : String := ""
  tags : List String := []
  tier : String := "full"
  pinned : Bool := false
  state : SessionState := .live
  turns : Nat := 0
  rev : Nat
  summarized_rev : Int := 0
  title_manual : Bool := false
  embedded_rev : Int := 0
deriving DecidableEq, Repr

/-- A row of `turns`. -/
structure Turn where
  id : String
  session_id : String
  seq : Nat
  time : Int
  user_text : String
  answer_text : String
  status : String
  tool_trace : String
  goal_id : Option String
  rev : Nat
  embedded : Int := 0
  embed_attempts : Nat := 0
deriving DecidableEq, Repr

/-- A row of `cascade`: what is left to clean up after a deleted session. -/
structure CascadeRow where
  turn_ids : List String
  goal_ids : List String
  attempts : Nat := 0
  next_at : Int := 0
  done : List String := []
  gen : Nat := 0
deriving DecidableEq, Repr

/-- A row of `swept`. -/
structure SweptRow where
  turn_ids : List String
  until_ms : Int
  swept_at : Int := 0
deriving DecidableEq, Repr

/-- The database. `rev` is the counter of the `meta` table. -/
structure Store where
  rev : Nat
  rev_le : rev ≤ i64Max
  sessions : Table String Session
  turns : Table Nat Turn
  tombstones : Table String Nat
  cascade : Table String CascadeRow
  swept : Table String SweptRow

/-- A new database. -/
def Store.empty : Store where
  rev := 0
  rev_le := Nat.zero_le _
  sessions := ∅
  turns := ∅
  tombstones := ∅
  cascade := ∅
  swept := ∅

/-- `SELECT … FROM sessions WHERE id = ? AND state = 'live'`. -/
def Store.live (s : Store) (id : String) : Option Session :=
  s.sessions[id]?.filter fun row => row.state = .live

/-- `SELECT … FROM turns WHERE session_id = ? ORDER BY seq`. -/
def Store.sessionTurns (s : Store) (id : String) : List Turn :=
  ((s.turns.selectWhere fun _ t => t.session_id = id).map Prod.snd).insertionSort (·.seq ≤ ·.seq)

def dbErr (e : String) : String := "database error: " ++ e

/-- A transaction of this plugin: a refused statement is reported through `db_err`. -/
def transaction {α : Type} (fault : Option String) (body : Tx Store α) : Db Store α :=
  Db.transaction (fault.map dbErr) body

/-- `next_rev`. SQLite turns the successor of the largest integer into a real, which is no `i64`. -/
def nextRev : Tx Store Nat := do
  let s ← get
  if h : s.rev < i64Max then
    set ({ s with rev := s.rev + 1, rev_le := h } : Store)
    return s.rev + 1
  else throw (dbErr "Invalid column type Real at index: 0, name: value")

/-- Changes the row of a session. -/
def updateSession (id : String) (f : Session → Session) : Tx Store Unit :=
  modify fun s => { s with sessions := s.sessions.modify id f }

/-! ## Parameters -/

structure Config where
  pause_secs : Int := 1800
  trace_max_chars : Nat := 200
  text_max_bytes : Nat := 65536
  sync_max : UInt64 := 500

structure ResolveParams where
  device : String
  kind : String
  source : String
  session_id : Option String

structure AppendParams where
  session_id : String
  user_text : String
  answer_text : String
  status : String
  tool_trace : Json
  goal_id : Option String

def kinds : List String := ["chat", "voice"]

def statuses : List String := ["ok", "failed", "cancelled"]

def maxTraceEntries : Nat := 50

/-- Cut a text to at most `max` bytes on a char boundary; a cut text ends with `…`. -/
def truncateBytes (s : String) (max : Nat) : String :=
  if s.utf8ByteSize ≤ max then s
  else String.ofList (takeBytes (max - "…".utf8ByteSize) s.toList) ++ "…"

/-- Cut a text to at most `max` chars; a cut text ends with `…`. -/
def truncateChars (s : String) (max : Nat) : String :=
  if s.length ≤ max then s
  else String.ofList (s.toList.take (max - 1)) ++ "…"

def clipField (v : Json) (max : Nat) : Json :=
  match v with
  | .str s => .str (truncateChars s max)
  | other => .str (truncateChars other.print max)

/-- The entry of a trace with its documented keys only, in the order of their names. -/
def normalizeEntry (cfg : Config) (item : Json) : Json :=
  let field (k : String) : List (String × Json) :=
    match item.get k with
    | none | some .null => []
    | some v => [(k, clipField v cfg.trace_max_chars)]
  let ms : List (String × Json) :=
    match item.get "ms" with
    | some (.int n) => [("ms", .int n)]
    | some (.float x) => [("ms", .float x)]
    | _ => []
  let tool : List (String × Json) :=
    match item.get "tool" with
    | some (.str tool) => [("tool", .str (truncateChars tool cfg.trace_max_chars))]
    | _ => []
  .obj (field "args" ++ field "error" ++ ms ++ field "result" ++ tool)

/-- Keep only the documented keys of each trace entry and bound their size. Entries that are no
    objects are dropped; anything but an array is an error. -/
def normalizeTrace (trace : Json) (cfg : Config) : Except String Json :=
  match trace with
  | .null => .ok (.arr [])
  | .arr items =>
    let objects := items.filter fun item => item matches .obj _
    .ok (.arr ((objects.take maxTraceEntries).map (normalizeEntry cfg)))
  | _ => .error "tool_trace must be an array"

/-! ## Calls -/

/-- A new session row under the drawn id. -/
def newSession (p : ResolveParams) (now : Int) (ulid : String) : Tx Store String := do
  let rev ← nextRev
  if (← get).sessions.contains ulid then
    throw (dbErr "UNIQUE constraint failed: sessions.id")
  modify fun s => { s with
    sessions := s.sessions.insert ulid {
      kind := p.kind
      device := p.device
      source := p.source
      started_at := now
      last_at := now
      rev } }
  return ulid

/-- The live session of a device and a kind that was active last. -/
def latestSession (s : Store) (device kind : String) : Option (String × Session) :=
  (s.sessions.selectWhere fun _ row => row.device = device && row.kind = kind &&
      row.state = .live).foldl
    (fun best r => match best with
      | some b => if b.2.last_at ≤ r.2.last_at then some r else some b
      | none => some r) none

/-- `pause_secs.saturating_mul(1000)`. -/
def pauseMs (cfg : Config) : Int :=
  max (-2 ^ 63) (min i64Max (cfg.pause_secs * 1000))

/-- Chat sessions never time out; only voice sessions split on silence. -/
def isFresh (cfg : Config) (p : ResolveParams) (now last_at : Int) : Bool :=
  p.kind = "chat" || wrapI64 (now - last_at) < pauseMs cfg

/-- The session a new turn may go on with. -/
def findSession (cfg : Config) (p : ResolveParams) (now : Int) (s : Store) : Option String :=
  match p.session_id with
  | some id =>
    match s.live id with
    | some row =>
      if row.device = p.device && row.kind = p.kind && isFresh cfg p now row.last_at then some id
      else none
    | none => none
  | none =>
    match latestSession s p.device p.kind with
    | some (id, row) => if isFresh cfg p now row.last_at then some id else none
    | none => none

/-- Pick the session a new turn belongs to, and whether it is a new one. `ulid` is the id drawn for
    a new session. -/
def resolve (cfg : Config) (p : ResolveParams) (now : Int) (ulid : String) (fault : Option String) :
    Db Store (String × Bool) := do
  if p.kind ∉ kinds then throw ("kind must be chat or voice, got " ++ debug p.kind)
  if trim p.device = "" then throw "device is required"
  transaction fault do
    match findSession cfg p now (← get) with
    | some id => return (id, false)
    | none => return (← newSession p now ulid, true)

/-- `INSERT INTO turns`, with the constraints of the table. -/
def insertTurn (t : Turn) : Tx Store Unit := do
  let s ← get
  let rows := s.turns.toList.map Prod.snd
  if rows.any fun t' => t'.id = t.id then throw (dbErr "UNIQUE constraint failed: turns.id")
  if rows.any fun t' => t'.session_id = t.session_id && t'.seq = t.seq then
    throw (dbErr "UNIQUE constraint failed: turns.session_id, turns.seq")
  set { s with turns := s.turns.insert s.turns.nextRowid t }

/-- The reply of `append`. -/
structure Appended where
  turn_id : String
  seq : Nat
  rev : Nat

/-- Add a turn to a live session; one transaction, one revision. -/
def append (cfg : Config) (p : AppendParams) (now : Int) (ulid : String) (fault : Option String) :
    Db Store Appended := do
  if p.status ∉ statuses then
    throw ("status must be ok, failed or cancelled, got " ++ debug p.status)
  let user_text := truncateBytes p.user_text cfg.text_max_bytes
  let answer_text := truncateBytes p.answer_text cfg.text_max_bytes
  let trace ← Db.ofExcept (normalizeTrace p.tool_trace cfg)
  transaction fault do
    match (← get).live p.session_id with
    | none => throw ("unknown session " ++ p.session_id)
    | some row =>
      let rev ← nextRev
      let seq := row.turns + 1
      insertTurn {
        id := ulid
        session_id := p.session_id
        seq
        time := now
        user_text
        answer_text
        status := p.status
        tool_trace := trace.print
        goal_id := p.goal_id
        rev }
      updateSession p.session_id fun row =>
        { row with turns := seq, last_at := max row.last_at now, rev }
      return { turn_id := ulid, seq, rev }

/-- Rename and/or pin a session. -/
def update (id : String) (title : Option String) (pinned : Option Bool) (fault : Option String) :
    Db Store Nat := do
  if title = none ∧ pinned = none then throw "nothing to update: pass title and/or pinned"
  let title := title.map fun t => truncateChars (trim t) 512
  transaction fault do
    match (← get).live id with
    | none => throw ("unknown session " ++ id)
    | some _ =>
      let rev ← nextRev
      updateSession id fun row => { row with
        title := title.getD row.title
        title_manual := title.isSome || row.title_manual
        pinned := pinned.getD row.pinned
        rev }
      return rev

/-- The reply of `delete`. -/
structure Deleted where
  rev : Nat
  deleted : Bool

/-- Hide a session everywhere at once and queue its cascade. `deleted` is true only for the call
    that did the work. -/
def delete (id : String) (fault : Option String) : Db Store Deleted :=
  transaction fault do
    match (← get).tombstones[id]? with
    | some rev => return { rev, deleted := false }
    | none =>
      match (← get).live id with
      | none => return { rev := (← get).rev, deleted := false }
      | some _ =>
        let rev ← nextRev
        updateSession id fun row =>
          { row with state := .deleting, title := "", summary := "", tags := [], rev }
        -- the turn and goal ids are still known
        let turns := (← get).sessionTurns id
        let turn_ids := turns.map Turn.id
        let goal_ids := ((turns.filterMap Turn.goal_id).filter (· ≠ "")).eraseDups
        modify fun s => { s with cascade := s.cascade.insert id { turn_ids, goal_ids } }
        modify fun s => { s with turns := s.turns.deleteWhere fun _ t => t.session_id = id }
        modify fun s => { s with tombstones := s.tombstones.insert id rev }
        return { rev, deleted := true }

end Chats

/-!
## The delete cascade

The queue of cleanups that the deleted sessions leave, and the calls a cleanup is made of
(`cascade.rs`).
-/

namespace Chats

def sweepKeepMs : Int := 7 * (24 * 3600 * 1000)
def backoffBaseMs : Int := 60000
def backoffMaxMs : Int := 3600000
def jobsPerPass : Nat := 10

/-! ## The queue -/

/-- Appends the ids that are not in the list yet. -/
def mergeIds (ids new : List String) : List String :=
  new.foldl (fun ids t => if t ∈ ids then ids else ids ++ [t]) ids

/-- The row of a session that is queued (again): a new one, or the pending one with more turns. -/
def CascadeRow.requeue (row : Option CascadeRow) (turn_ids : List String) : CascadeRow :=
  match row with
  | none => { turn_ids := mergeIds [] turn_ids, goal_ids := [] }
  | some row => { row with
      turn_ids := mergeIds row.turn_ids turn_ids
      attempts := 0
      next_at := 0
      done := []
      gen := row.gen + 1 }

/-- (Re)queue the cleanup of vectors for a session: merges with a pending job and clears its `done`
    list, so that every step runs again. -/
def requeue (session_id : String) (turn_ids : List String) (fault : Option String) :
    Db Store Unit :=
  transaction fault <| modify fun s => { s with
    cascade := s.cascade.insert session_id (.requeue s.cascade[session_id]? turn_ids) }

/-- A row of `cascade` as the pass read it. -/
structure Job where
  session_id : String
  turn_ids : List String
  goal_ids : List String
  attempts : Nat
  done : List String
  gen : Nat
deriving DecidableEq

def Job.ofRow (session_id : String) (row : CascadeRow) : Job where
  session_id
  turn_ids := row.turn_ids
  goal_ids := row.goal_ids
  attempts := row.attempts
  done := row.done.dedup
  gen := row.gen

/-- The first jobs that are due at `now`. -/
def dueJobs (now : Int) (s : Store) : List Job :=
  let due := s.cascade.selectWhere fun _ row => row.next_at ≤ now
  ((due.insertionSort (·.2.next_at ≤ ·.2.next_at)).take jobsPerPass).map fun r =>
    Job.ofRow r.1 r.2

/-- Backoff after the `attempts`-th failure: 1 min, 2 min, 4 min … capped at 1 h. -/
def backoffMs (attempts : Nat) : Int :=
  min (backoffBaseMs * 2 ^ min (attempts - 1) 20) backoffMaxMs

/-- All steps done: drop the job and the session row, remember the vector ids for the sweep. False,
    with nothing changed, if the job was requeued since it was read. -/
def finish (job : Job) (now : Int) (fault : Option String) : Db Store Bool :=
  transaction fault do
    let s ← get
    match s.cascade[job.session_id]? with
    | none => return false
    | some row =>
      if row.gen ≠ job.gen then return false
      else
        let deleting := s.sessions[job.session_id]?.any fun row => row.state = .deleting
        if deleting && (s.turns.toList.map Prod.snd).any fun t => t.session_id = job.session_id then
          throw (dbErr "FOREIGN KEY constraint failed")
        let old := (s.swept[job.session_id]?.map SweptRow.turn_ids).getD []
        set { s with
          cascade := s.cascade.erase job.session_id
          sessions := if deleting then s.sessions.erase job.session_id else s.sessions
          swept := s.swept.insert job.session_id
            { turn_ids := mergeIds old job.turn_ids, until_ms := now + sweepKeepMs } }
        return true

/-- Remember finished steps. With `backoff` a step failed: count the attempt and schedule the retry;
    otherwise the job stays due. -/
def saveProgress (job : Job) (done : List String) (now : Int) (backoff : Bool)
    (fault : Option String) : Db Store Unit :=
  transaction fault <| modify fun s =>
    let (attempts, next_at) :=
      if backoff then (job.attempts + 1, now + backoffMs (job.attempts + 1)) else (job.attempts, 0)
    match s.cascade[job.session_id]? with
    | none => s
    | some row =>
      if row.gen ≠ job.gen then s
      else
        let row := { row with attempts, next_at, done := done.insertionSort (· ≤ ·) }
        { s with cascade := s.cascade.insert job.session_id row }

/-! ## The steps of a job -/

/-- A call a job is made of, under the key by which it is remembered. -/
structure Step where
  key : String
  plugin : String
  action : String
  params : Json

/-- The name of a collection of vectors. -/
def turnsCollection : String := "chats-turns"
def sessionsCollection : String := "chats-sessions"

def stepsOf (job : Job) : List Step :=
  job.turn_ids.map (fun t =>
    { key := "t:" ++ t
      plugin := "vector-db"
      action := "vec_delete"
      params := .obj [("collection", .str turnsCollection), ("id", .str t)] }) ++
  [{ key := "s"
     plugin := "vector-db"
     action := "vec_delete"
     params := .obj [("collection", .str sessionsCollection), ("id", .str job.session_id)] }] ++
  job.goal_ids.map (fun g =>
    { key := "g:" ++ g
      plugin := "agent"
      action := "goal_delete"
      params := .obj [("id", .str g)] }) ++
  [{ key := "m"
     plugin := "agent"
     action := "memory_forget_session"
     params := .obj [("session_id", .str job.session_id)] }]

end Chats
