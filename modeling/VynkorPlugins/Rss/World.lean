import VynkorPlugins.Base.Ledger
import VynkorPlugins.Rss.Tasks

/-!
# The feed store and its requests

Any number of requests over one database, whose calls succeed. Beside the database the world keeps a
history of the run, which no task reads.
-/

namespace Rss

open Async

/-- What has happened. -/
structure History where
  /-- The ids and URLs of feeds, and who looks for a URL. -/
  feeds : Ledger Nat String String String
  /-- The ids of articles with their feeds and links, and who looks for a link. -/
  articles : Ledger Nat String (String × String) String
  /-- The requests that have deleted a feed and have still to list the articles. -/
  to_list : String → List Nat
  /-- The feeds that were deleted, -/
  deleted : List String
  /-- and those whose removal was answered. -/
  removed : List String
  /-- The requests in progress. -/
  running : List Nat

/-- The documents are stored under their ids. -/
structure World where
  feeds : Table String Feed
  articles : Table String Article
  feed_keyed : ∀ (id : String) (f : Feed), feeds[id]? = some f → f.id = id
  article_keyed : ∀ (id : String) (a : Article), articles[id]? = some a → a.id = id
  next_feed_id : Nat
  next_article_id : Nat
  clock : Int64
  /-- What is fetched next. -/
  fetched : Except String Json
  history : History

/-! ## History -/

namespace History

variable (h : History) (i : Nat)

/-- The articles of a deleted feed are listed. -/
def list_articles : RssRequest → History
  | .Remove id =>
    { h with to_list := Function.update h.to_list id ((h.to_list id).filter fun j => j ≠ i) }
  | _ => h

def delete_feed (id : String) : History :=
  { h with
    to_list := Function.update h.to_list id (i :: h.to_list id)
    deleted := id :: h.deleted }

/-- A request is answered. -/
def reply (req : RssRequest) (result : Except String Reply) : History :=
  { h with
    running := h.running.erase i
    removed :=
      match req, result with
      | .Remove id, .ok (.removed true) => id :: h.removed
      | _, _ => h.removed }

end History

/-! ## Steps -/

namespace World

variable (w : World)

def put_feed (f : Feed) : World :=
  { w with
    feeds := w.feeds.insert f.id f
    feed_keyed := by
      intro id f' h
      rw [Table.getElem?_insert_ite] at h
      split_ifs at h with hid
      · obtain rfl := Option.some.inj h
        exact hid
      · exact w.feed_keyed id f' h }

def erase_feed (id : String) : World :=
  { w with
    feeds := w.feeds.erase id
    feed_keyed := by
      intro id' f h
      rw [Table.getElem?_erase_ite] at h
      split_ifs at h
      exact w.feed_keyed id' f h }

def put_article (a : Article) : World :=
  { w with
    articles := w.articles.insert a.id a
    article_keyed := by
      intro id a' h
      rw [Table.getElem?_insert_ite] at h
      split_ifs at h with hid
      · obtain rfl := Option.some.inj h
        exact hid
      · exact w.article_keyed id a' h }

def erase_article (id : String) : World :=
  { w with
    articles := w.articles.erase id
    article_keyed := by
      intro id' a h
      rw [Table.getElem?_erase_ite] at h
      split_ifs at h
      exact w.article_keyed id' a h }

def feed_rows (keys : List String) : List Feed :=
  (w.feeds.selectWhere fun id _ => id ∈ keys).map Prod.snd

def article_rows (keys : List String) : List Article :=
  (w.articles.selectWhere fun id _ => id ∈ keys).map Prod.snd

def setHistory (h : History) : World := { w with history := h }

/-- A feed is stored: a new one under its URL, or another title of one that was read. -/
def store_feed (req : RssRequest) (i : Nat) (f : Feed) : World :=
  (w.put_feed f).setHistory
    (match req with
      | .Add _ => { w.history with feeds := (w.history.feeds.file f.id f.url).leave i f.url }
      | _ => w.history)

/-- An article is stored: a new one under its link, or one that was read. -/
def store_article (req : RssRequest) (i : Nat) (a : Article) : World :=
  (w.put_article a).setHistory
    (match req with
      | .MarkRead .. => w.history
      | _ => { w.history with
          articles := (w.history.articles.file a.id (a.feed_id, a.link)).leave i a.link })

def delete_feed (i : Nat) (id : String) : World :=
  (w.erase_feed id).setHistory
    (if w.feeds.contains id then w.history.delete_feed i id else w.history)

/-- The feeds are read, and a URL is looked up among them. -/
def read_feeds (i : Nat) (url : Option String) (rows : List Feed) : World :=
  match url with
  | none => w
  | some u =>
    if u ∈ rows.map Feed.url then
      w.setHistory { w.history with feeds := w.history.feeds.leave i u }
    else w

def read_articles (i : Nat) (link : Option String) (rows : List Article) : World :=
  match link with
  | none => w
  | some l =>
    if l ∈ rows.map Article.link then
      w.setHistory { w.history with articles := w.history.articles.leave i l }
    else w

/-- What a task is answered, and what becomes of the world. -/
def serve (req : RssRequest) (i : Nat) : (e : Eff) → World → e.Answer × World
  | .ready, w => ((), w.setHistory { w.history with running := i :: w.history.running })
  | .now, w => (w.clock, w)
  | .feed_keys none, w => (.ok w.feeds.keys, w)
  | .feed_keys (some url), w =>
    (.ok w.feeds.keys, w.setHistory { w.history with feeds := w.history.feeds.seek i url })
  | .get_feeds url keys, w => (.ok (w.feed_rows keys), w.read_feeds i url (w.feed_rows keys))
  | .article_keys none, w =>
    (.ok w.articles.keys, w.setHistory (w.history.list_articles i req))
  | .article_keys (some link), w =>
    (.ok w.articles.keys, w.setHistory { w.history with articles := w.history.articles.seek i link })
  | .get_articles link keys, w =>
    (.ok (w.article_rows keys), w.read_articles i link (w.article_rows keys))
  | .get_feed id, w => (.ok w.feeds[id]?, w)
  | .get_article id, w => (.ok w.articles[id]?, w)
  | .db_incr .next_feed_id, w =>
    (.ok (w.next_feed_id + 1), { w with
      next_feed_id := w.next_feed_id + 1
      history := { w.history with
        feeds := w.history.feeds.draw i (toString (w.next_feed_id + 1)) } })
  | .db_incr .next_article_id, w =>
    (.ok (w.next_article_id + 1), { w with
      next_article_id := w.next_article_id + 1
      history := { w.history with
        articles := w.history.articles.draw i (toString (w.next_article_id + 1)) } })
  | .put_feed f, w => (.ok (), w.store_feed req i f)
  | .put_article a, w => (.ok (), w.store_article req i a)
  | .delete_feed id, w => (.ok (w.feeds.contains id), w.delete_feed i id)
  | .delete_article id, w => (.ok (w.articles.contains id), w.erase_article id)
  | .http_request .., w => (w.fetched, w)
  | .reply result, w => ((), w.setHistory (w.history.reply i req result))
  | .publish .., w => ((), w)

end World

/-- A request is answered by the world as it is. -/
def Handle (requests : Nat → RssRequest) (i : Nat) (w : World) (e : Eff) (r : e.Answer) (w' : World) :
    Prop :=
  World.serve (requests i) i e w = (r, w')

/-- What changes by itself: the clock, and the pages. -/
structure Weather where
  clock : Int64
  fetched : Except String Json

def World.turn (w : World) (l : Weather) : World :=
  { w with clock := l.clock, fetched := l.fetched }

def Turn (w : World) (l : Weather) (w' : World) : Prop := w' = w.turn l

abbrev Tasks := Pool Nat Eff Eff.Answer Unit World

abbrev TaskLabel := PoolLabel Nat Eff Eff.Answer Weather

abbrev TaskStep (requests : Nat → RssRequest) : Tasks → TaskLabel → Tasks → Prop :=
  PoolStep (Handle requests) Turn

def History.empty : History where
  feeds := .empty
  articles := .empty
  to_list _ := []
  deleted := []
  removed := []
  running := []

/-- The database is empty. -/
def World.empty : World where
  feeds := ∅
  articles := ∅
  feed_keyed id f h := by simp at h
  article_keyed id a h := by simp at h
  next_feed_id := 0
  next_article_id := 0
  clock := 0
  fetched := .error ""
  history := .empty

/-- No request has begun. -/
def Tasks.start (crates : Crates) (requests : Nat → RssRequest) : Tasks where
  tasks i := (requests i).task crates
  world := .empty

/-! ## Consistency -/

/-- The store is as it should be. -/
structure Consistent (w : World) : Prop where
  urls : ∀ (id id' : String) (f f' : Feed), w.feeds[id]? = some f → w.feeds[id']? = some f' →
    f.url = f'.url → id = id'
  links : ∀ (id id' : String) (a a' : Article), w.articles[id]? = some a → w.articles[id']? = some a' →
    a.link = a'.link → id = id'
  nonempty : ∀ (id : String) (a : Article), w.articles[id]? = some a → a.link ≠ ""
  /-- An article belongs to a feed. -/
  feeds : ∀ (id : String) (a : Article), w.articles[id]? = some a → w.feeds[a.feed_id]? ≠ none
  /-- A feed whose removal was answered is gone. -/
  removed : ∀ id ∈ w.history.removed, w.feeds[id]? = none

/-- A new feed is stored while no other request looks for its URL, and a new article while no other
    one looks for its link; the feed of the article is stored, or the request that has deleted it has
    still to list the articles; and what is read and written back is still stored. -/
def Undisturbed (requests : Nat → RssRequest) (w : World) : TaskLabel → Prop
  | .act i (.put_feed f) _ =>
    match requests i with
    | .Add _ => ∀ j ∈ w.history.feeds.seekers f.url, j = i
    | _ => w.feeds.contains f.id = true
  | .act i (.put_article a) _ =>
    match requests i with
    | .MarkRead .. => w.articles.contains a.id = true
    | _ =>
      (∀ j ∈ w.history.articles.seekers a.link, j = i) ∧
        (w.feeds.contains a.feed_id = true ∨ w.history.to_list a.feed_id ≠ [])
  | _ => True

instance (requests : Nat → RssRequest) (w : World) (l : TaskLabel) :
    Decidable (Undisturbed requests w l) := by
  unfold Undisturbed
  split
  · split <;> infer_instance
  · split <;> infer_instance
  · infer_instance

/-! ## Runs that are computed -/

/-- A request moves, or what changes by itself does. -/
inductive Move where
  | act (i : Nat)
  | turn (l : Weather)

def answerMove (requests : Nat → RssRequest) (cond : World → TaskLabel → Prop)
    [∀ w l, Decidable (cond w l)] (p : Tasks) : Move → Option (TaskLabel × Tasks)
  | .act i =>
    match p.tasks i with
    | .done _ => none
    | .call e k =>
      let served := World.serve (requests i) i e p.world
      if cond p.world (.act i e served.1) then
        some (.act i e served.1,
          { tasks := Function.update p.tasks i (k served.1), world := served.2 })
      else none
  | .turn l =>
    if cond p.world (.env l) then some (.env l, { p with world := p.world.turn l }) else none

theorem step_answerMove {requests : Nat → RssRequest} {cond : World → TaskLabel → Prop}
    [∀ w l, Decidable (cond w l)] {p p' : Tasks} {a : Move} {l : TaskLabel}
    (h : answerMove requests cond p a = some (l, p')) :
    Transition.Where (fun p l => cond p.world l) (TaskStep requests) p l p' := by
  unfold answerMove at h
  split at h
  · rename_i i
    split at h
    · cases h
    · rename_i e k htask
      simp only at h
      split_ifs at h with hc
      obtain ⟨rfl, rfl⟩ := Prod.mk.inj (Option.some.inj h)
      exact ⟨.act htask rfl, hc⟩
  · rename_i l
    split_ifs at h with hc
    obtain ⟨rfl, rfl⟩ := Prod.mk.inj (Option.some.inj h)
    exact ⟨.env rfl, hc⟩

end Rss
