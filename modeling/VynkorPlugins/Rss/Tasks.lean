import Mathlib.Data.List.Sort
import VynkorPlugins.Base.Async
import VynkorPlugins.Base.Json
import VynkorPlugins.Base.Rust
import VynkorPlugins.Base.Table

/-!
# Feeds and their articles

The requests of the `rss` plugin (`lib.rs`, `store.rs`). Each request is a task of its own; it awaits
the clock, the database and the pages it fetches.
-/

namespace Rss

structure Feed where
  id : String
  url : String
  title : String
  created_at_ms : Int64

structure Article where
  id : String
  feed_id : String
  title : String
  link : String
  published_ms : Option Int64
  read : Bool
  created_at_ms : Int64

inductive RssRequest where
  | Add (url : String)
  | Remove (id : String)
  | List
  | Fetch (id : String) (timeout_ms : UInt64)
  | FetchAll (timeout_ms : UInt64)
  | Articles (feed_id : Option String) (unread_only : Bool) (query : Option String)
      (limit offset : Nat)
  | MarkRead (id : String) (read : Bool)
  | Status

/-- The answers, before they are encoded. -/
inductive Reply where
  | feed (feed : Feed)
  | removed (removed : Bool)
  | feeds (feeds : List Feed)
  | fetched (fetched new : Nat)
  | fetched_all (fetched new feeds : Nat)
  | articles (page : List Article) (total : Nat)
  | updated (article : Article)
  | status

/-! ## Pages -/

structure Item where
  title : Option String
  link : Option String
  pub_date : Option String

structure Channel where
  title : String
  items : List Item

/-- What the plugin uses of other crates, and of the tables of Unicode. -/
structure Crates where
  base64_decode : String → Except String ByteArray
  from_utf8_lossy : ByteArray → String
  read_from : String → Except String Channel
  parse_from_rfc2822 : String → Option Int64
  to_lowercase : String → String

/-! ## What a task awaits -/

/-- The counters of the ids. -/
inductive Counter where
  | next_feed_id
  | next_article_id

/-- A listing in which a URL or a link is looked up is told along with it. -/
inductive Eff where
  | ready
  | now
  | feed_keys (url : Option String)
  | get_feeds (url : Option String) (keys : List String)
  | article_keys (link : Option String)
  | get_articles (link : Option String) (keys : List String)
  | get_feed (id : String)
  | get_article (id : String)
  | db_incr (counter : Counter)
  | put_feed (feed : Feed)
  | put_article (article : Article)
  | delete_feed (id : String)
  | delete_article (id : String)
  | http_request (url : String) (timeout_ms : UInt64)
  | reply (result : Except String Reply)
  | publish (event_type : String) (payload : Json)

/-- The calls to other plugins come back with an error where they fail. -/
@[reducible] def Eff.Answer : Eff → Type
  | .ready => Unit
  | .now => Int64
  | .feed_keys _ => Except String (List String)
  | .get_feeds .. => Except String (List Feed)
  | .article_keys _ => Except String (List String)
  | .get_articles .. => Except String (List Article)
  | .get_feed _ => Except String (Option Feed)
  | .get_article _ => Except String (Option Article)
  | .db_incr _ => Except String Nat
  | .put_feed _ => Except String Unit
  | .put_article _ => Except String Unit
  | .delete_feed _ => Except String Bool
  | .delete_article _ => Except String Bool
  | .http_request .. => Except String Json
  | .reply _ => Unit
  | .publish .. => Unit

abbrev Act (α : Type) := Async Eff Eff.Answer α

def await (e : Eff) : Act e.Answer := Async.perform e

namespace Db

def next_id (counter : Counter) : Act (Except String Nat) := await (.db_incr counter)

def put_feed (f : Feed) : Act (Except String Unit) := await (.put_feed f)

def get_feed (id : String) : Act (Except String (Option Feed)) := await (.get_feed id)

/-- The documents whose keys are listed: two calls, between which other tasks may move. -/
def list_feeds (url : Option String) : Act (Except String (List Feed)) := do
  match ← await (.feed_keys url) with
  | .error e => return .error e
  | .ok keys => if keys = [] then return .ok [] else await (.get_feeds url keys)

def delete_feed (id : String) : Act (Except String Bool) := await (.delete_feed id)

def put_article (a : Article) : Act (Except String Unit) := await (.put_article a)

def get_article (id : String) : Act (Except String (Option Article)) := await (.get_article id)

def list_articles (link : Option String) : Act (Except String (List Article)) := do
  match ← await (.article_keys link) with
  | .error e => return .error e
  | .ok keys => if keys = [] then return .ok [] else await (.get_articles link keys)

def find_article_by_link (link : String) : Act (Except String (Option Article)) := do
  match ← list_articles (some link) with
  | .error e => return .error e
  | .ok all => return .ok (all.find? fun a => a.link = link)

end Db

def now_ms : Act Int64 := await .now

/-! ## Fetching -/

def fetch_items (crates : Crates) (feed : Feed) :
    List Item → (fetched new : Nat) → Act (Except String (Nat × Nat))
  | [], fetched, new => return .ok (fetched, new)
  | item :: items, fetched, new => do
    let fetched := fetched + 1
    let title := item.title.getD "untitled"
    let link := item.link.getD ""
    if link = "" then fetch_items crates feed items fetched new
    else
      match ← Db.find_article_by_link link with
      | .error e => return .error e
      | .ok (some _) => fetch_items crates feed items fetched new
      | .ok none =>
        match ← Db.next_id .next_article_id with
        | .error e => return .error e
        | .ok id =>
          let now ← now_ms
          let article : Article := {
            id := toString id
            feed_id := feed.id
            title
            link
            published_ms := item.pub_date.bind crates.parse_from_rfc2822
            read := false
            created_at_ms := now }
          match ← Db.put_article article with
          | .error e => return .error e
          | .ok () => fetch_items crates feed items fetched (new + 1)

/-- The text of a page, from the answer of `http_request`. -/
def page (crates : Crates) (v : Json) : Except String String :=
  let status := ((v.get "status").bind Json.asI64).getD 0
  let body := ((v.get "body").bind Json.asStr).getD ""
  if ¬ (200 ≤ status ∧ status < 300) then
    .error ("feed returned HTTP " ++ toString status ++ ": " ++ body)
  else
    let encoding := ((v.get "body_encoding").bind Json.asStr).getD "utf8"
    if encoding = "base64" then
      match crates.base64_decode body with
      | .error e => .error ("base64 decode: " ++ e)
      | .ok bytes => .ok (crates.from_utf8_lossy bytes)
    else .ok (crates.from_utf8_lossy body.toUTF8)

def fetch_feed (crates : Crates) (feed : Feed) (timeout_ms : UInt64) :
    Act (Except String (Nat × Nat)) := do
  match ← await (.http_request feed.url timeout_ms) with
  | .error e => return .error ("http_request failed: " ++ e)
  | .ok v =>
    match page crates v with
    | .error e => return .error e
    | .ok text =>
      match crates.read_from text with
      | .error e => return .error ("rss parse: " ++ e)
      | .ok channel =>
        match ← fetch_items crates feed channel.items 0 0 with
        | .error e => return .error e
        | .ok counts =>
          if channel.title ≠ "" ∧ channel.title ≠ feed.title then
            let _ ← Db.put_feed { feed with title := channel.title }
            return .ok counts
          else return .ok counts

def fetch_feeds (crates : Crates) (timeout_ms : UInt64) :
    List Feed → (total_fetched total_new : Nat) → Act (Except String (Nat × Nat))
  | [], total_fetched, total_new => return .ok (total_fetched, total_new)
  | feed :: feeds, total_fetched, total_new => do
    match ← fetch_feed crates feed timeout_ms with
    | .error e => return .error e
    | .ok (f, n) => fetch_feeds crates timeout_ms feeds (total_fetched + f) (total_new + n)

/-! ## Requests -/

/-- The answer, and the event that follows it. -/
abbrev Handled := Except String (Reply × Option (String × Json))

def rss_add (url : String) : Act Handled := do
  match ← Db.list_feeds (some url) with
  | .error e => return .error e
  | .ok existing =>
    match existing.find? fun f => f.url = url with
    | some f => return .ok (.feed f, none)
    | none =>
      match ← Db.next_id .next_feed_id with
      | .error e => return .error e
      | .ok id =>
        let now ← now_ms
        let feed : Feed := { id := toString id, url, title := url, created_at_ms := now }
        match ← Db.put_feed feed with
        | .error e => return .error e
        | .ok () =>
          return .ok (.feed feed, some ("feed_added", .obj [("id", .str feed.id), ("url", .str url)]))

/-- The articles of a feed are deleted one by one; a call that fails is passed over. -/
def delete_articles : List Article → Act Unit
  | [] => return ()
  | a :: articles => do
    let _ ← await (.delete_article a.id)
    delete_articles articles

def rss_remove (id : String) : Act Handled := do
  match ← Db.delete_feed id with
  | .error e => return .error e
  | .ok removed =>
    if removed then
      match ← Db.list_articles none with
      | .error e => return .error e
      | .ok articles =>
        delete_articles (articles.filter fun a => a.feed_id = id)
        return .ok (.removed true, some ("feed_removed", .obj [("id", .str id)]))
    else return .ok (.removed false, none)

def rss_fetch (crates : Crates) (id : String) (timeout_ms : UInt64) : Act Handled := do
  match ← Db.get_feed id with
  | .error e => return .error e
  | .ok none => return .error ("feed not found: " ++ id)
  | .ok (some feed) =>
    match ← fetch_feed crates feed timeout_ms with
    | .error e => return .error e
    | .ok (fetched, new) =>
      return .ok (.fetched fetched new, some ("feed_fetched",
        .obj [("fetched", .int fetched), ("id", .str id), ("new", .int new)]))

def rss_fetch_all (crates : Crates) (timeout_ms : UInt64) : Act Handled := do
  match ← Db.list_feeds none with
  | .error e => return .error e
  | .ok feeds =>
    match ← fetch_feeds crates timeout_ms feeds 0 0 with
    | .error e => return .error e
    | .ok (total_fetched, total_new) =>
      return .ok (.fetched_all total_fetched total_new feeds.length, some ("fetch_all",
        .obj [("fetched", .int total_fetched), ("new", .int total_new)]))

def rss_articles (crates : Crates) (feed_id : Option String) (unread_only : Bool)
    (query : Option String) (limit offset : Nat) : Act Handled := do
  match ← Db.list_articles none with
  | .error e => return .error e
  | .ok articles =>
    let matches_query (a : Article) : Bool := query.all fun q =>
      Rust.contains (crates.to_lowercase a.title) (crates.to_lowercase q) ||
        Rust.contains (crates.to_lowercase a.link) (crates.to_lowercase q)
    let kept := articles.filter fun a =>
      (feed_id.all fun fid => a.feed_id = fid) && (!unread_only || !a.read) && matches_query a
    let sorted := kept.insertionSort fun a b =>
      b.published_ms.getD b.created_at_ms ≤ a.published_ms.getD a.created_at_ms
    return .ok (.articles ((sorted.drop offset).take limit) sorted.length, none)

def rss_mark_read (id : String) (read : Bool) : Act Handled := do
  match ← Db.get_article id with
  | .error e => return .error e
  | .ok none => return .error ("article not found: " ++ id)
  | .ok (some article) =>
    let article := { article with read }
    match ← Db.put_article article with
    | .error e => return .error e
    | .ok () => return .ok (.updated article, none)

def handle_action (crates : Crates) : RssRequest → Act Handled
  | .Add url => rss_add url
  | .Remove id => rss_remove id
  | .List => do
    match ← Db.list_feeds none with
    | .error e => return .error e
    | .ok feeds =>
      return .ok (.feeds (feeds.insertionSort fun a b => a.created_at_ms ≤ b.created_at_ms), none)
  | .Fetch id timeout_ms => rss_fetch crates id timeout_ms
  | .FetchAll timeout_ms => rss_fetch_all crates timeout_ms
  | .Articles feed_id unread_only query limit offset =>
    rss_articles crates feed_id unread_only query limit offset
  | .MarkRead id read => rss_mark_read id read
  | .Status => return .ok (.status, none)

/-- The task that the serve loop spawns for a request. -/
def RssRequest.task (crates : Crates) (req : RssRequest) : Act Unit := do
  await .ready
  match ← handle_action crates req with
  | .error e => await (.reply (.error e))
  | .ok (reply, event) =>
    await (.reply (.ok reply))
    match event with
    | some (event_type, payload) => await (.publish event_type payload)
    | none => return ()

end Rss
