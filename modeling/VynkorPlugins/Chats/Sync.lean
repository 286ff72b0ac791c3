import Mathlib.Data.List.Sort
import VynkorPlugins.Base.Pages
import VynkorPlugins.Chats.Calls

/-!
# Pages of changes

What `chat_sync` answers (`sync.rs`, `request.rs`), and the copy a client keeps by it.
-/

namespace Chats

open Rust Transition

/-! ## Rows as they are sent -/

/-- `SESSION_COLS`. -/
structure SessionView where
  id : String
  kind : String
  device : String
  source : String
  title : String
  started_at : Int
  last_at : Int
  summary : String
  tags : List String
  tier : String
  pinned : Bool
  turns : Nat
deriving DecidableEq, Repr

/-- `TURN_COLS` and the session of the turn. -/
structure TurnView where
  id : String
  seq : Nat
  time : Int
  user_text : String
  answer_text : String
  status : String
  tool_trace : String
  goal_id : Option String
  session_id : String
deriving DecidableEq, Repr

def sessionFromRow (id : String) (row : Session) : SessionView where
  id
  kind := row.kind
  device := row.device
  source := row.source
  title := row.title
  started_at := row.started_at
  last_at := row.last_at
  summary := row.summary
  tags := row.tags
  tier := row.tier
  pinned := row.pinned
  turns := row.turns

def turnFromRow (t : Turn) : TurnView where
  id := t.id
  seq := t.seq
  time := t.time
  user_text := t.user_text
  answer_text := t.answer_text
  status := t.status
  tool_trace := t.tool_trace
  goal_id := t.goal_id
  session_id := t.session_id

inductive Body where
  | session (v : SessionView)
  | turn (v : TurnView)
  | delete (id : String)
deriving DecidableEq, Repr

/-- One change before it is rendered: the key by which it is ordered, and its body. -/
structure Change where
  rev : Nat
  op_order : Nat
  sub : Nat
  body : Body
deriving DecidableEq, Repr

/-- The order of `(rev, op_order, sub)`. -/
def Change.le (a b : Change) : Prop :=
  a.rev < b.rev ∨ a.rev = b.rev ∧
    (a.op_order < b.op_order ∨ a.op_order = b.op_order ∧ a.sub ≤ b.sub)

instance : DecidableRel Change.le := fun _ _ => inferInstanceAs (Decidable (_ ∨ _))

def sessionChange (id : String) (row : Session) : Change where
  rev := row.rev
  op_order := 0
  sub := 0
  body := .session (sessionFromRow id row)

def turnChange (t : Turn) : Change where
  rev := t.rev
  op_order := 1
  sub := t.seq
  body := .turn (turnFromRow t)

def deleteChange (id : String) (rev : Nat) : Change where
  rev
  op_order := 2
  sub := 0
  body := .delete id

/-! ## Pages -/

/-- `ORDER BY rev … LIMIT`: a negative limit means no limit. -/
def orderedRows (limit : Int) (rows : List Change) : List Change :=
  let rows := rows.insertionSort (·.rev ≤ ·.rev)
  if limit < 0 then rows else rows.take limit.toNat

/-- The rows of the three tables with `lo < rev ≤ hi`. -/
def sessionChanges (s : Store) (lo hi : Int) : List Change :=
  (s.sessions.selectWhere fun _ row => row.state = .live && lo < row.rev && row.rev ≤ hi).map
    fun r => sessionChange r.1 r.2

def turnChanges (s : Store) (lo hi : Int) : List Change :=
  (s.turns.selectWhere fun _ t => lo < t.rev && t.rev ≤ hi && (s.live t.session_id).isSome).map
    fun r => turnChange r.2

def deleteChanges (s : Store) (lo hi : Int) : List Change :=
  (s.tombstones.selectWhere fun _ rev => lo < rev && rev ≤ hi).map fun r => deleteChange r.1 r.2

/-- Changes with `lo < rev ≤ hi`, each source ordered by rev. -/
def fetch (s : Store) (lo hi limit : Int) : List Change :=
  (orderedRows limit (sessionChanges s lo hi) ++ orderedRows limit (turnChanges s lo hi) ++
    orderedRows limit (deleteChanges s lo hi)).insertionSort Change.le

structure Page where
  changes : List Change
  rev : Int
  more : Bool
  reset : Bool
deriving DecidableEq, Repr

/-- Changes with `rev > since_rev`, oldest first. At most `min limit sync_max` changes are taken, then
    the page is extended to include every change that shares the last revision, so a revision group
    is never split across pages. -/
def sync (s : Store) (since_rev : Int) (limit sync_max : UInt64) : Page :=
  let limit := max (min limit.toNat sync_max.toNat) 1
  if since_rev > s.rev then
    -- The caller is ahead of this store: it must drop its local copy and resync from 0.
    { changes := [], rev := s.rev, more := false, reset := true }
  else
    let page := (fetch s since_rev i64Max (wrapI64 limit)).take limit
    match page.getLast? with
    | none => { changes := [], rev := since_rev, more := false, reset := false }
    | some c =>
      let last_rev := c.rev
      -- Complete the last group: re-read every change at exactly `last_rev`.
      let page := page.filter (·.rev < last_rev) ++ fetch s (last_rev - 1) last_rev (-1)
      let more := !(fetch s last_rev i64Max 1).isEmpty
      { changes := page, rev := last_rev, more, reset := false }

/-- `chat_sync`. `fault` is the error of a statement that the database refuses. -/
def chatSync (cfg : Config) (since_rev : Int) (limit : Option Int64) (fault : Option String)
    (s : Store) : Except String Page :=
  match fault with
  | some e => .error (dbErr e)
  | none =>
    let limit := (max (limit.getD cfg.sync_max.toInt64).toInt 1).toNat
    .ok (sync s (max since_rev 0) (.ofNat limit) cfg.sync_max)

/-! ## Clients -/

/-- The copy of a client: its sessions, its turns, and the last returned rev. -/
structure Copy where
  rev : Int
  sessions : Table String SessionView
  turns : Table String TurnView

def Copy.empty : Copy where
  rev := 0
  sessions := ∅
  turns := ∅

def Copy.applyChange (copy : Copy) (c : Change) : Copy :=
  match c.body with
  | .session v => { copy with sessions := copy.sessions.insert v.id v }
  | .turn v => { copy with turns := copy.turns.insert v.id v }
  | .delete id => { copy with
      sessions := copy.sessions.erase id
      turns := copy.turns.deleteWhere fun _ v => v.session_id = id }

def Copy.applyPage (copy : Copy) (page : Page) : Copy :=
  if page.reset then .empty
  else { page.changes.foldl Copy.applyChange copy with rev := page.rev }

/-! ## A client and the store -/

structure Synced where
  store : Store
  copy : Copy

/-- A call to the store, or the answer to a `chat_sync` of the client. -/
inductive SyncLabel where
  | call (l : CallLabel)
  | sync (answer : Except String Page)

/-- Both happen under the lock of the connection. The client asks with its last returned rev, and
    applies the page it gets. -/
inductive SyncStep : Synced → SyncLabel → Synced → Prop
  | call {p l s'} (h : CallStep p.store l s') : SyncStep p (.call l) { p with store := s' }
  | sync {p answer} (cfg : Config) (limit : Option Int64) (fault : Option String)
      (h : chatSync cfg p.copy.rev limit fault p.store = answer) :
      SyncStep p (.sync answer)
        { p with copy := match answer with
            | .ok page => p.copy.applyPage page
            | .error _ => p.copy }

/-- The calls of a run. -/
def SyncLabel.calls (trace : List SyncLabel) : List CallLabel :=
  trace.filterMap fun
    | .call l => some l
    | .sync _ => none

/-- A call, or a `chat_sync` of the client, in a run that is computed. -/
inductive SyncRequest where
  | call (request : CallRequest)
  | sync (limit : Option Int64)

def answerSync (p : Synced) : SyncRequest → SyncLabel × Synced
  | .call request =>
    let r := answerCall p.store request
    (.call r.1, { p with store := r.2 })
  | .sync limit =>
    let page := chatSync {} p.copy.rev limit none p.store
    (.sync page, { p with copy := match page with
      | .ok page => p.copy.applyPage page
      | .error _ => p.copy })

theorem syncStep_answerSync (p : Synced) (request : SyncRequest) :
    SyncStep p (answerSync p request).1 (answerSync p request).2 := by
  cases request with
  | call request => exact .call (callStep_answerCall _ _)
  | sync limit => exact .sync {} limit none rfl

end Chats
