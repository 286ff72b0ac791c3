import VynkorPlugins.Base.Pages
import VynkorPlugins.Chats.Sync

/-!
# Pages of sessions

What `chat_sessions_list` answers (`store.rs`).
-/

namespace Chats

open Rust

structure ListParams where
  from_ : Option Int := none
  to_ : Option Int := none
  kind : Option String := none
  source : Option String := none
  limit : Option Int := none
  /-- Cursor from a previous page's `next_before`, or a bare `last_at`. -/
  before : Option Json := none

/-- Parse a `before` cursor: `<last_at>:<id>` or a bare integer `last_at`. -/
def parseCursor (v : Json) : Except String (Int × Option String) :=
  let bad := "invalid before cursor " ++ v.print
  match v with
  | .int _ | .float _ =>
    match v.asI64 with
    | some last_at => .ok (last_at, none)
    | none => .error bad
  | .str s =>
    match splitOnce s ':' with
    | some (last_at, id) =>
      if id = "" then .error bad
      else
        match parseI64 last_at.toList with
        | some last_at => .ok (last_at.toInt, some id)
        | none => .error bad
    | none =>
      match parseI64 s.toList with
      | some last_at => .ok (last_at.toInt, none)
      | none => .error bad
  | _ => .error bad

/-- The cursor of some parameters: `null` is none. -/
def ListParams.cursor (p : ListParams) : Except String (Option (Int × Option String)) :=
  match p.before with
  | none | some .null => .ok none
  | some v => (parseCursor v).map some

/-- The sessions that are listed: live ones with a turn, within the filters. -/
def ListParams.Lists (p : ListParams) (row : Session) : Prop :=
  row.state = .live ∧ 0 < row.turns ∧ (∀ t, p.from_ = some t → t ≤ row.last_at) ∧
    (∀ t, p.to_ = some t → row.last_at ≤ t) ∧ (∀ kind, p.kind = some kind → row.kind = kind) ∧
      ∀ source, p.source = some source → row.source = source

instance (p : ListParams) (row : Session) : Decidable (p.Lists row) := by
  have hfrom : Decidable (∀ t, p.from_ = some t → t ≤ row.last_at) :=
    Option.decidableForallMem (p := fun t => t ≤ row.last_at) _
  have hto : Decidable (∀ t, p.to_ = some t → row.last_at ≤ t) :=
    Option.decidableForallMem (p := fun t => row.last_at ≤ t) _
  have hkind : Decidable (∀ kind, p.kind = some kind → row.kind = kind) :=
    Option.decidableForallMem (p := fun kind => row.kind = kind) _
  have hsource : Decidable (∀ source, p.source = some source → row.source = source) :=
    Option.decidableForallMem (p := fun source => row.source = source) _
  unfold ListParams.Lists
  infer_instance

/-- The sessions that come after a cursor. -/
def After (cursor : Option (Int × Option String)) (r : String × Session) : Prop :=
  match cursor with
  | none => True
  | some (last_at, none) => r.2.last_at < last_at
  | some (last_at, some id) => r.2.last_at < last_at ∨ r.2.last_at = last_at ∧ r.1 < id

instance (cursor : Option (Int × Option String)) (r : String × Session) :
    Decidable (After cursor r) := by
  unfold After
  split <;> infer_instance

/-- `ORDER BY last_at DESC, id DESC` -/
def ListedLe (a b : String × Session) : Prop :=
  b.2.last_at < a.2.last_at ∨ b.2.last_at = a.2.last_at ∧ b.1 ≤ a.1

instance : DecidableRel ListedLe := fun _ _ => inferInstanceAs (Decidable (_ ∨ _))

/-- The rows of the query, without its limit. -/
def listed (s : Store) (p : ListParams) (cursor : Option (Int × Option String)) :
    List (String × Session) :=
  (s.sessions.selectWhere fun id row => decide (p.Lists row ∧ After cursor (id, row))).insertionSort
    ListedLe

/-- The cursor after a session. -/
def formatCursor (v : SessionView) : String :=
  (Json.int v.last_at).print ++ ":" ++ v.id

structure Listing where
  sessions : List SessionView
  next_before : Option String
deriving DecidableEq, Repr

/-- Live sessions that have at least one turn, most recently active first. When more rows exist the
    reply carries `next_before`, to pass as `before` for the next page. `fault` is the error of a
    statement that the database refuses. -/
def list (p : ListParams) (fault : Option String) (s : Store) : Except String Listing := do
  let limit := max 1 (min (p.limit.getD 50) 200)
  let cursor ← p.cursor
  if let some e := fault then throw (dbErr e)
  let rows := ((listed s p cursor).take (limit + 1).toNat).map fun r => sessionFromRow r.1 r.2
  let more := (rows.length : Int) > limit
  let sessions := rows.take limit.toNat
  return { sessions, next_before := if more then sessions.getLast?.map formatCursor else none }

/-! ## Following the cursors -/

/-- The page of a cursor, and the cursor it gives for the next one. -/
def listPage (s : Store) (p : ListParams) (before : Option Json) :
    Option (Listing × Option (Option Json)) :=
  (list { p with before } none s).toOption.map fun listing =>
    (listing, listing.next_before.map fun cursor => some (.str cursor))

/-- The pages from the first one on, each but the first asked for by the `next_before` of the one
    before it, if the last one is among the first `fuel` pages. -/
def followListing (s : Store) (p : ListParams) (fuel : Nat) : Option (List Listing) :=
  Pages.follow (listPage s p) fuel none

end Chats
