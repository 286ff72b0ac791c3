import VynkorPlugins.Base.Transition
import VynkorPlugins.Chats.Store

/-!
# Summaries of sessions

Which sessions are summarized, what is asked for one of them, and how the result is written back
(`summary.rs`).
-/

namespace Chats

open Rust

structure Summary where
  title : String
  summary : String
  tags : List String
deriving DecidableEq, Repr

/-- Parse the model reply: a bare JSON object, optionally in a fence or surrounded by prose (the
    first opening .. last closing brace is taken). An empty `summary` is not a summary. `fromStr` is
    the parser of `serde_json`. -/
def parseSummary (fromStr : String → Option Json) (toLowercase : String → String)
    (content : String) : Option Summary := do
  let object := (content.toList.dropWhile (· ≠ '{')).rdropWhile (· ≠ '}')
  let v ← fromStr (String.ofList object)
  let summary := trim (← (← v.get "summary").asStr)
  if summary = "" then none
  else
    let tags := match v.get "tags" with
      | some (.arr items) =>
        let tags := (items.filterMap Json.asStr).map fun t => toLowercase (trim t)
        (tags.filter (· ≠ "")).take 5
      | _ => []
    some { title := trim (((v.get "title").bind Json.asStr).getD ""), summary, tags }

/-! ## Candidates -/

/-- Sessions summarized per worker pass. -/
def summaryBatch : Nat := 5

def transcriptMaxChars : Nat := 12000

/-- "User: …\nAssistant: …" blocks, cut to `transcriptMaxChars` keeping the beginning and the end. -/
def buildTranscript (turns : List (String × String)) : String :=
  let full := "\n\n".intercalate (turns.map fun t => "User: " ++ t.1 ++ "\nAssistant: " ++ t.2)
  let chars := full.toList
  if chars.length ≤ transcriptMaxChars then full
  else
    let half := transcriptMaxChars / 2
    String.ofList (chars.take half) ++ "\n[...]\n" ++ String.ofList (chars.drop (chars.length - half))

structure Candidate where
  id : String
  rev : Nat
  transcript : String

/-- An idle session whose row is newer than its last summary. -/
def IsCandidate (idle_before : Int) (row : Session) : Prop :=
  row.state = .live ∧ 0 < row.turns ∧ row.last_at ≤ idle_before ∧ row.summarized_rev < row.rev

instance (idle_before : Int) (row : Session) : Decidable (IsCandidate idle_before row) := by
  unfold IsCandidate
  infer_instance

def candidates (s : Store) (idle_before : Int) (skip : List String) : List Candidate :=
  let rows := s.sessions.selectWhere fun _ row => IsCandidate idle_before row
  let rows := (rows.insertionSort (·.2.last_at ≤ ·.2.last_at)).take (summaryBatch + skip.length)
  ((rows.filter fun r => r.1 ∉ skip).take summaryBatch).map fun r =>
    { id := r.1
      rev := r.2.rev
      transcript := buildTranscript (((s.sessionTurns r.1).filter (·.status = "ok")).map fun t =>
        (t.user_text, t.answer_text)) }

/-! ## Results -/

/-- Write a result for `id`. `seen_rev` is the revision the transcript was read at. True if synced
    state changed.

    - session no longer live: nothing is written;
    - `none`: only `summarized_rev`, so the session is retried when a new turn bumps its rev;
    - `some`: summary, tags and title (unless set manually) under a new rev; `summarized_rev` follows
      the new rev only if no turn arrived meanwhile. -/
def apply (id : String) (seen_rev : Int) (result : Option Summary) (fault : Option String) :
    Db Store Bool :=
  transaction fault do
    match (← get).live id with
    | none => return false
    | some cur =>
      match result with
      | none =>
        updateSession id fun row => { row with
          embedded_rev :=
            if row.embedded_rev ≥ row.summarized_rev then max row.embedded_rev seen_rev
            else row.embedded_rev
          summarized_rev := max row.summarized_rev seen_rev }
        return false
      | some result =>
        let rev ← nextRev
        let marked : Int := if cur.rev = seen_rev then rev else seen_rev
        updateSession id fun row => { row with
          summary := result.summary
          tags := result.tags
          title := if !row.title_manual && result.title ≠ "" then result.title else row.title
          rev
          summarized_rev := marked }
        return true

end Chats

/-!
## The calls that change the store

Each of them runs under the lock of the single connection, so a run of the store is a sequence of
such calls.
-/

namespace Chats

open Transition

inductive Call where
  | resolve (cfg : Config) (p : ResolveParams) (now : Int) (ulid : String)
  | append (cfg : Config) (p : AppendParams) (now : Int) (ulid : String)
  | update (id : String) (title : Option String) (pinned : Option Bool)
  | delete (id : String)
  | apply (id : String) (seen_rev : Int) (result : Option Summary)
  | requeue (session_id : String) (turn_ids : List String)
  | saveProgress (job : Job) (done : List String) (now : Int) (backoff : Bool)
  | finish (job : Job) (now : Int)

/-- What a call answers. -/
inductive Reply where
  | resolved (session_id : String) (created : Bool)
  | appended (turn : Appended)
  | updated (rev : Nat)
  | deleted (d : Deleted)
  | applied (changed : Bool)
  | requeued
  | saved
  | finished (removed : Bool)

def Call.perform (fault : Option String) : Call → Db Store Reply
  | .resolve cfg p now ulid => do
    let r ← Chats.resolve cfg p now ulid fault
    return .resolved r.1 r.2
  | .append cfg p now ulid => do return .appended (← Chats.append cfg p now ulid fault)
  | .update id title pinned => do return .updated (← Chats.update id title pinned fault)
  | .delete id => do return .deleted (← Chats.delete id fault)
  | .apply id seen_rev result => do return .applied (← Chats.apply id seen_rev result fault)
  | .requeue session_id turn_ids => do
    Chats.requeue session_id turn_ids fault
    return .requeued
  | .saveProgress job done now backoff => do
    Chats.saveProgress job done now backoff fault
    return .saved
  | .finish job now => do return .finished (← Chats.finish job now fault)

/-- A call, the database error it meets, its answer, and the revision it writes to the rows it
    changes. -/
structure CallLabel where
  call : Call
  fault : Option String
  reply : Except String Reply
  rev : Option Nat

/-- The revision that a call has issued: the one it answers with, or else the one of the session it
    has written. -/
def issuedRev (call : Call) (reply : Except String Reply) (s' : Store) : Option Nat :=
  match call, reply with
  | .resolve .., .ok (.resolved id true) => s'.sessions[id]?.map Session.rev
  | .append .., .ok (.appended turn) => some turn.rev
  | .update .., .ok (.updated rev) => some rev
  | .delete _, .ok (.deleted d) => if d.deleted then some d.rev else none
  | .apply id .., .ok (.applied true) => s'.sessions[id]?.map Session.rev
  | _, _ => none

/-- A call under the lock, with any arguments. -/
def CallStep (s : Store) (l : CallLabel) (s' : Store) : Prop :=
  (l.call.perform l.fault).exec s = (l.reply, s') ∧ l.rev = issuedRev l.call l.reply s'

/-- A call and the database error it meets, in a run that is computed. -/
abbrev CallRequest := Call × Option String

def answerCall (s : Store) (request : CallRequest) : CallLabel × Store :=
  let r := (request.1.perform request.2).exec s
  ({ call := request.1
     fault := request.2
     reply := r.1
     rev := issuedRev request.1 r.1 r.2 }, r.2)

theorem callStep_answerCall (s : Store) (request : CallRequest) :
    CallStep s (answerCall s request).1 (answerCall s request).2 :=
  ⟨rfl, rfl⟩

/-- The id drawn for the row that a call has created. -/
def CallLabel.ulid (l : CallLabel) : Option String :=
  match l.call, l.reply with
  | .resolve _ _ _ ulid, .ok (.resolved _ true) => some ulid
  | .append _ _ _ ulid, .ok (.appended _) => some ulid
  | _, _ => none

/-- The ids drawn in a run, the latest one first. `ulid::Ulid::new` gives another one each time. -/
def drawn (trace : List CallLabel) : List String :=
  trace.filterMap CallLabel.ulid

/-- The revisions issued in a run, the latest one first. -/
def issued (trace : List CallLabel) : List Nat :=
  trace.filterMap CallLabel.rev

end Chats

/-!
## What the calls do

The changes that a call can make to the store, and which of them it has made when it gives an
answer. Everything the rest of the development says about a run of the store is derived from these.
-/

namespace Chats

open Rust

inductive Event where
  | nothing
  | created (id : String)
  | appended (t : Turn)
  | edited (id : String) (rev : Nat)
  | deleted (id : String) (rev : Nat)
  | marked (id : String)
  | requeued (id : String) (turn_ids : List String)
  | saved (job : Job) (done : List String)
  | finished (job : Job)

/-- The change of an event. -/
inductive Effect (s : Store) : Event → Store → Prop
  | nothing : Effect s .nothing s
  | created {id row} (h : s.rev < i64Max) (hid : s.sessions[id]? = none)
      (hlive : row.state = .live) (hturns : row.turns = 0) (hrev : row.rev = s.rev + 1) :
      Effect s (.created id)
        { s with rev := s.rev + 1, rev_le := h, sessions := s.sessions.insert id row }
  | appended {t row} (h : s.rev < i64Max) (hrow : s.live t.session_id = some row)
      (hseq : t.seq = row.turns + 1) (hrev : t.rev = s.rev + 1)
      (hid : ∀ (k : Nat) (t' : Turn), s.turns[k]? = some t' → t'.id ≠ t.id) (last_at : Int) :
      Effect s (.appended t)
        { s with
          rev := s.rev + 1
          rev_le := h
          turns := s.turns.insert s.turns.nextRowid t
          sessions := s.sessions.insert t.session_id
            { row with turns := t.seq, last_at, rev := s.rev + 1 } }
  | edited {id row row'} (h : s.rev < i64Max) (hrow : s.live id = some row)
      (hlive : row'.state = .live) (hturns : row'.turns = row.turns) (hrev : row'.rev = s.rev + 1) :
      Effect s (.edited id (s.rev + 1))
        { s with rev := s.rev + 1, rev_le := h, sessions := s.sessions.insert id row' }
  | deleted {id row row'} (h : s.rev < i64Max) (hrow : s.live id = some row)
      (htomb : s.tombstones[id]? = none) (hdel : row'.state = .deleting)
      (hrev : row'.rev = s.rev + 1) (goal_ids : List String) :
      Effect s (.deleted id (s.rev + 1))
        { s with
          rev := s.rev + 1
          rev_le := h
          sessions := s.sessions.insert id row'
          cascade := s.cascade.insert id { turn_ids := (s.sessionTurns id).map Turn.id, goal_ids }
          turns := s.turns.deleteWhere fun _ t => t.session_id = id
          tombstones := s.tombstones.insert id (s.rev + 1) }
  | marked {id row} (hrow : s.live id = some row) (summarized_rev embedded_rev : Int) :
      Effect s (.marked id)
        { s with sessions := s.sessions.insert id { row with summarized_rev, embedded_rev } }
  | requeued {id turn_ids} :
      Effect s (.requeued id turn_ids)
        { s with cascade := s.cascade.insert id (.requeue s.cascade[id]? turn_ids) }
  | saved {job row done} (hrow : s.cascade[job.session_id]? = some row) (hgen : row.gen = job.gen)
      (attempts : Nat) (next_at : Int) :
      Effect s (.saved job done)
        { s with
          cascade := s.cascade.insert job.session_id
            { row with attempts, next_at, done := done.insertionSort (· ≤ ·) } }
  | finished {job row} (hrow : s.cascade[job.session_id]? = some row) (hgen : row.gen = job.gen)
      (swept : Table String SweptRow) :
      Effect s (.finished job)
        { s with
          cascade := s.cascade.erase job.session_id
          sessions :=
            if s.sessions[job.session_id]?.any fun row => row.state = .deleting then
              s.sessions.erase job.session_id
            else s.sessions
          swept }

/-- The event of which a call that answers so tells. -/
inductive Event.Answers : Event → Call → Except String Reply → Prop
  | failed {c e} : Answers .nothing c (.error e)
  | found {cfg p now ulid id} : Answers .nothing (.resolve cfg p now ulid) (.ok (.resolved id false))
  | created {cfg p now id} :
      Answers (.created id) (.resolve cfg p now id) (.ok (.resolved id true))
  | appended {cfg p now} {t : Turn} (hid : t.session_id = p.session_id) :
      Answers (.appended t) (.append cfg p now t.id)
        (.ok (.appended { turn_id := t.id, seq := t.seq, rev := t.rev }))
  | updated {id rev title pinned} :
      Answers (.edited id rev) (.update id title pinned) (.ok (.updated rev))
  | undeleted {id rev} :
      Answers .nothing (.delete id) (.ok (.deleted { rev, deleted := false }))
  | deleted {id rev} :
      Answers (.deleted id rev) (.delete id) (.ok (.deleted { rev, deleted := true }))
  | unapplied {id seen_rev result} :
      Answers .nothing (.apply id seen_rev result) (.ok (.applied false))
  | marked {id seen_rev} : Answers (.marked id) (.apply id seen_rev none) (.ok (.applied false))
  | summarized {id rev seen_rev result} :
      Answers (.edited id rev) (.apply id seen_rev (some result)) (.ok (.applied true))
  | requeued {id turn_ids} : Answers (.requeued id turn_ids) (.requeue id turn_ids) (.ok .requeued)
  | unsaved {job done now backoff} :
      Answers .nothing (.saveProgress job done now backoff) (.ok .saved)
  | saved {job done now backoff} :
      Answers (.saved job done) (.saveProgress job done now backoff) (.ok .saved)
  | unfinished {job now} : Answers .nothing (.finish job now) (.ok (.finished false))
  | finished {job now} : Answers (.finished job) (.finish job now) (.ok (.finished true))

/-- What a call that answers so leaves in the table of the sessions: what it was, without a row whose
    cleanup is done, with a new row, or with a new version of the row of a live session. -/
inductive Rows (s : Store) : Call → Except String Reply → Table String Session → Prop
  | failed {call e} : Rows s call (.error e) s.sessions
  | found {cfg p now ulid id} :
      Rows s (.resolve cfg p now ulid) (.ok (.resolved id false)) s.sessions
  | created {cfg p now id} (hid : s.sessions[id]? = none) :
      Rows s (.resolve cfg p now id) (.ok (.resolved id true)) (s.sessions.insert id {
        kind := p.kind
        device := p.device
        source := p.source
        started_at := now
        last_at := now
        rev := s.rev + 1 })
  | appended {cfg p now ulid turn row} (hrow : s.live p.session_id = some row) :
      Rows s (.append cfg p now ulid) (.ok (.appended turn)) (s.sessions.insert p.session_id
        { row with turns := row.turns + 1, last_at := max row.last_at now, rev := s.rev + 1 })
  | updated {id title pinned rev row} (hrow : s.live id = some row) :
      Rows s (.update id title pinned) (.ok (.updated rev)) (s.sessions.insert id { row with
        title := (title.map fun t => truncateChars (trim t) 512).getD row.title
        title_manual := (title.map fun t => truncateChars (trim t) 512).isSome || row.title_manual
        pinned := pinned.getD row.pinned
        rev := s.rev + 1 })
  | undeleted {id rev} : Rows s (.delete id) (.ok (.deleted { rev, deleted := false })) s.sessions
  | deleted {id rev row} (hrow : s.live id = some row) :
      Rows s (.delete id) (.ok (.deleted { rev, deleted := true })) (s.sessions.insert id
        { row with state := .deleting, title := "", summary := "", tags := [], rev := s.rev + 1 })
  | unapplied {id seen_rev result} (hnone : s.live id = none) :
      Rows s (.apply id seen_rev result) (.ok (.applied false)) s.sessions
  | unusable {id seen_rev row embedded_rev} (hrow : s.live id = some row) :
      Rows s (.apply id seen_rev none) (.ok (.applied false)) (s.sessions.insert id
        { row with summarized_rev := max row.summarized_rev seen_rev, embedded_rev })
  | usable {id seen_rev result row} (hrow : s.live id = some row) :
      Rows s (.apply id seen_rev (some result)) (.ok (.applied true)) (s.sessions.insert id { row with
        summary := result.summary
        tags := result.tags
        title := if !row.title_manual && result.title ≠ "" then result.title else row.title
        rev := s.rev + 1
        summarized_rev := if row.rev = seen_rev then ↑(s.rev + 1) else seen_rev })
  | requeued {id turn_ids} : Rows s (.requeue id turn_ids) (.ok .requeued) s.sessions
  | saved {job done now backoff} : Rows s (.saveProgress job done now backoff) (.ok .saved) s.sessions
  | unfinished {job now removed} : Rows s (.finish job now) (.ok (.finished removed)) s.sessions
  | finished {job now removed} :
      Rows s (.finish job now) (.ok (.finished removed)) (s.sessions.erase job.session_id)

end Chats
