import VynkorPlugins.Rss.World

/-!
# What a request does with the store

A request has copies of the documents it has read, it may look for a URL or for a link, and the removal
of a feed deletes the articles of the feed one by one.
-/

namespace Rss

open Async

/-- Where the removal of a feed is. -/
inductive Sweep where
  | none
  | deleted (id : String)
  | listed (id : String) (keys : List String)
  | rest (id : String) (ids : List String)

namespace Sweep

def list (keys : List String) : Sweep → Sweep
  | .deleted id => .listed id keys
  | s => s

def read (rows : List Article) : Sweep → Sweep
  | .listed id _ => .rest id ((rows.filter fun a => a.feed_id = id).map Article.id)
  | s => s

def tail : Sweep → Sweep
  | .rest id ids => .rest id ids.tail
  | s => s

/-- All articles that there were are deleted. -/
def Done (id : String) (s : Sweep) : Prop :=
  s = .listed id [] ∨ s = .rest id []

end Sweep

structure Local where
  req : RssRequest
  running : Bool
  feeds : List Feed
  article : Option Article
  adding : Seek String String
  looking : Seek String String
  sweep : Sweep

def Local.start (req : RssRequest) : Local where
  req
  running := false
  feeds := []
  article := none
  adding := .idle
  looking := .idle
  sweep := .none

namespace Local

variable (s : Local)

def Allowed : Eff → Prop
  | .feed_keys (some _) => s.adding = .idle
  | .get_feeds (some url) keys => s.adding = .listed url keys
  | .article_keys (some link) => s.looking = .idle ∧ link ≠ ""
  | .get_articles (some link) keys => s.looking = .listed link keys
  | .get_articles none keys => ∀ id ks, s.sweep = .listed id ks → ks = keys
  | .db_incr .next_feed_id => ∀ n id, s.adding ≠ .drawn n id
  | .db_incr .next_article_id => ∀ n id, s.looking ≠ .drawn n id
  | .put_feed f =>
    match s.req with
    | .Add _ => s.adding = .drawn f.url f.id
    | _ => ∃ c ∈ s.feeds, c.id = f.id ∧ c.url = f.url
  | .put_article a =>
    match s.req with
    | .MarkRead .. => ∃ c, s.article = some c ∧ c.id = a.id ∧ c.feed_id = a.feed_id ∧ c.link = a.link
    | _ => s.looking = .drawn a.link a.id
  | .delete_feed id => s.req = .Remove id ∧ s.sweep = .none ∧ s.running = true
  | .delete_article id => ∃ feed_id ids, s.sweep = .rest feed_id (id :: ids)
  | .reply (.ok (.removed true)) => ∃ id, s.req = .Remove id ∧ s.sweep.Done id
  | .reply _ => s.sweep = .none
  | _ => True

def put_feed : Local :=
  match s.req with
  | .Add _ => { s with adding := .idle }
  | _ => s

def put_article : Local :=
  match s.req with
  | .MarkRead .. => s
  | _ => { s with looking := .idle }

/-- A call does not fail. -/
def next : (e : Eff) → e.Answer → Option Local
  | .ready, _ => some { s with running := true }
  | .feed_keys (some url), r => r.toOption.map fun keys => { s with adding := .listed url keys }
  | .feed_keys none, r => r.toOption.map fun _ => s
  | .get_feeds (some _) _, r => r.toOption.map fun rows =>
    { s with adding := s.adding.read (rows.map Feed.url) }
  | .get_feeds none _, r => r.toOption.map fun rows => { s with feeds := rows }
  | .article_keys (some link), r => r.toOption.map fun keys => { s with looking := .listed link keys }
  | .article_keys none, r => r.toOption.map fun keys => { s with sweep := s.sweep.list keys }
  | .get_articles (some _) _, r => r.toOption.map fun rows =>
    { s with looking := s.looking.read (rows.map Article.link) }
  | .get_articles none _, r => r.toOption.map fun rows => { s with sweep := s.sweep.read rows }
  | .get_feed _, r => r.toOption.map fun f => { s with feeds := f.toList }
  | .get_article _, r => r.toOption.map fun a => { s with article := a }
  | .db_incr .next_feed_id, r => r.toOption.map fun n =>
    { s with adding := s.adding.draw (toString n) }
  | .db_incr .next_article_id, r => r.toOption.map fun n =>
    { s with looking := s.looking.draw (toString n) }
  | .put_feed _, r => r.toOption.map fun _ => s.put_feed
  | .put_article _, r => r.toOption.map fun _ => s.put_article
  | .delete_feed id, r => r.toOption.map fun removed =>
    if removed then { s with sweep := .deleted id } else s
  | .delete_article _, r => r.toOption.map fun _ => { s with sweep := s.sweep.tail }
  | .reply _, _ => some { s with sweep := .none, running := false }
  | .now, _ => some s
  | .http_request .., _ => some s
  | .publish .., _ => some s

end Local

def requestProtocol : Protocol Eff Eff.Answer Local where
  allowed s := s.Allowed
  next s e r s' := s.next e r = some s'

variable {crates : Crates} {s : Local}

/-! ## Listings -/

/-- Nothing was found. -/
def Open (name : String) (t : Seek String String) : Prop :=
  t = .missing name ∨ t = .listed name []

theorem draw_of_open {name id : String} {t : Seek String String} (h : Open name t) :
    t.draw id = .drawn name id := by
  rcases h with rfl | rfl <;> rfl

theorem not_drawn_of_open {name : String} {t : Seek String String} (h : Open name t) (n id : String) :
    t ≠ .drawn n id := by
  rcases h with rfl | rfl <;> nofun

/-- The feeds are listed, and the URL is found or not. -/
theorem obeys_list_feeds {url : String} (hs : s.adding = .idle) :
    Obeys requestProtocol (fun s' res => ∃ rows, res = .ok rows ∧
        ((∃ f, (rows.find? fun f => f.url = url) = some f) ∧ s' = s ∨
          (rows.find? fun f => f.url = url) = none ∧ ∃ t, Open url t ∧ s' = { s with adding := t }))
      s (Db.list_feeds (some url)) := by
  refine ⟨hs, fun r s₁ hr => ?_⟩
  cases r with
  | error e => cases hr
  | ok keys =>
    obtain rfl := Option.some.inj hr
    by_cases hkeys : keys = []
    · subst hkeys
      exact ⟨[], rfl, .inr ⟨rfl, _, .inr rfl, rfl⟩⟩
    · show Obeys _ _ _ (if keys = [] then _ else _)
      rw [if_neg hkeys]
      refine ⟨rfl, fun r s₂ hr => ?_⟩
      cases r with
      | error e => cases hr
      | ok rows =>
        obtain rfl := Option.some.inj hr
        refine ⟨rows, rfl, ?_⟩
        cases hfind : rows.find? fun f => f.url = url with
        | some f =>
          have hf := List.find?_some hfind
          have hmem : url ∈ rows.map Feed.url :=
            List.mem_map.mpr ⟨f, List.mem_of_find?_eq_some hfind, by simpa using hf⟩
          refine .inl ⟨⟨f, rfl⟩, ?_⟩
          simp only [Seek.read, hmem, if_true]
          rw [← hs]
        | none =>
          have hmem : url ∉ rows.map Feed.url := by
            rintro hmem
            obtain ⟨f, hf, hurl⟩ := List.mem_map.mp hmem
            have hnot := List.find?_eq_none.mp hfind f hf
            simp [hurl] at hnot
          refine .inr ⟨rfl, .missing url, .inl rfl, ?_⟩
          simp only [Seek.read, hmem, if_false]

/-- The articles are listed, and the link is found or not. -/
theorem obeys_find_article_by_link {link : String} (hs : s.looking = .idle) (hlink : link ≠ "") :
    Obeys requestProtocol (fun s' res =>
        (∃ a, res = .ok (some a)) ∧ s' = s ∨
          res = .ok none ∧ ∃ t, Open link t ∧ s' = { s with looking := t })
      s (Db.find_article_by_link link) := by
  refine ⟨⟨hs, hlink⟩, fun r s₁ hr => ?_⟩
  cases r with
  | error e => cases hr
  | ok keys =>
    obtain rfl := Option.some.inj hr
    by_cases hkeys : keys = []
    · subst hkeys
      exact .inr ⟨rfl, _, .inr rfl, rfl⟩
    · show Obeys _ _ _ ((if keys = [] then _ else _) >>= _)
      rw [if_neg hkeys]
      refine ⟨rfl, fun r s₂ hr => ?_⟩
      cases r with
      | error e => cases hr
      | ok rows =>
        obtain rfl := Option.some.inj hr
        show (∃ a, Except.ok (rows.find? fun a => a.link = link) = .ok (some a)) ∧ _ ∨
          Except.ok (rows.find? fun a => a.link = link) = .ok none ∧ _
        cases hfind : rows.find? fun a => a.link = link with
        | some a =>
          have ha := List.find?_some hfind
          have hmem : link ∈ rows.map Article.link :=
            List.mem_map.mpr ⟨a, List.mem_of_find?_eq_some hfind, by simpa using ha⟩
          refine .inl ⟨⟨a, rfl⟩, ?_⟩
          simp only [Seek.read, hmem, if_true]
          rw [← hs]
        | none =>
          have hmem : link ∉ rows.map Article.link := by
            rintro hmem
            obtain ⟨a, ha, hlink⟩ := List.mem_map.mp hmem
            have hnot := List.find?_eq_none.mp hfind a ha
            simp [hlink] at hnot
          refine .inr ⟨rfl, .missing link, .inl rfl, ?_⟩
          simp only [Seek.read, hmem, if_false]

/-! ## Fetching -/

/-- A request that fetches feeds. -/
def Fetches : RssRequest → Prop
  | .Fetch .. | .FetchAll _ => True
  | _ => False

theorem put_article_of_fetches (h : Fetches s.req) : s.put_article = { s with looking := .idle } := by
  unfold Local.put_article
  split
  · rename_i hreq
    rw [hreq] at h
    cases h
  · rfl

theorem put_feed_of_fetches (h : Fetches s.req) : s.put_feed = s := by
  unfold Local.put_feed
  split
  · rename_i hreq
    rw [hreq] at h
    cases h
  · rfl

theorem allowed_put_article_of_fetches (h : Fetches s.req) {a : Article}
    (ha : s.looking = .drawn a.link a.id) : s.Allowed (.put_article a) := by
  show match s.req with
    | .MarkRead .. => ∃ c, s.article = some c ∧ c.id = a.id ∧ c.feed_id = a.feed_id ∧ c.link = a.link
    | _ => s.looking = .drawn a.link a.id
  split
  · rename_i hreq
    rw [hreq] at h
    cases h
  · exact ha

theorem allowed_put_feed_of_fetches (h : Fetches s.req) {f c : Feed} (hc : c ∈ s.feeds)
    (hid : c.id = f.id) (hurl : c.url = f.url) : s.Allowed (.put_feed f) := by
  show match s.req with
    | .Add _ => s.adding = .drawn f.url f.id
    | _ => ∃ c ∈ s.feeds, c.id = f.id ∧ c.url = f.url
  split
  · rename_i hreq
    rw [hreq] at h
    cases h
  · exact ⟨c, hc, hid, hurl⟩

/-- By induction over the items: after each one no link is looked for. -/
theorem obeys_fetch_items (feed : Feed) (items : List Item) (hs : s.looking = .idle)
    (hreq : Fetches s.req) (fetched new : Nat) :
    Obeys requestProtocol (fun s' _ => s' = s) s (fetch_items crates feed items fetched new) := by
  induction items generalizing fetched new with
  | nil => exact rfl
  | cons item items ih =>
    unfold fetch_items
    by_cases hlink : item.link.getD "" = ""
    · rw [if_pos hlink]
      exact ih _ _
    · rw [if_neg hlink]
      refine (obeys_find_article_by_link hs hlink).bind ?_
      rintro s₁ res (⟨⟨a, rfl⟩, rfl⟩ | ⟨rfl, t, ht, rfl⟩)
      · exact ih _ _
      · refine ⟨not_drawn_of_open ht, fun r s₂ hr => ?_⟩
        cases r with
        | error e => cases hr
        | ok id =>
          obtain rfl := Option.some.inj hr
          refine ⟨trivial, fun now s₃ hr => ?_⟩
          obtain rfl := Option.some.inj hr
          let drawn : Local := { s with looking := t.draw (toString id) }
          refine ⟨allowed_put_article_of_fetches (s := drawn) hreq (draw_of_open ht), fun r s₄ hr => ?_⟩
          cases r with
          | error e => cases hr
          | ok =>
            obtain rfl := Option.some.inj hr
            have hput : drawn.put_article = s :=
              (put_article_of_fetches (s := drawn) hreq).trans (congrArg (fun looking => { s with looking }) hs.symm)
            show Obeys requestProtocol (fun s' _ => s' = s) drawn.put_article
              (fetch_items crates feed items _ _)
            rw [hput]
            exact ih _ _

theorem obeys_fetch_feed {feed : Feed} (hfeed : feed ∈ s.feeds) (hs : s.looking = .idle)
    (hreq : Fetches s.req) (timeout_ms : UInt64) :
    Obeys requestProtocol (fun s' _ => s' = s) s (fetch_feed crates feed timeout_ms) := by
  refine ⟨trivial, fun r s₁ hr => ?_⟩
  obtain rfl := Option.some.inj hr
  cases r with
  | error e => exact rfl
  | ok v =>
    dsimp only [Async.bind]
    split
    · exact rfl
    · split
      · exact rfl
      · refine (obeys_fetch_items feed _ hs hreq 0 0).bind ?_
        rintro _ res rfl
        cases res with
        | error e => exact rfl
        | ok counts =>
          simp only
          split_ifs
          · refine ⟨allowed_put_feed_of_fetches hreq hfeed rfl rfl, fun r s₂ hr => ?_⟩
            cases r with
            | error e => cases hr
            | ok =>
              obtain rfl := Option.some.inj hr
              exact put_feed_of_fetches hreq
          · exact rfl

theorem obeys_fetch_feeds (timeout_ms : UInt64) (feeds : List Feed) (hfeeds : ∀ f ∈ feeds, f ∈ s.feeds)
    (hs : s.looking = .idle) (hreq : Fetches s.req) (total_fetched total_new : Nat) :
    Obeys requestProtocol (fun s' _ => s' = s) s
      (fetch_feeds crates timeout_ms feeds total_fetched total_new) := by
  induction feeds generalizing total_fetched total_new with
  | nil => exact rfl
  | cons feed feeds ih =>
    refine (obeys_fetch_feed (hfeeds feed List.mem_cons_self) hs hreq timeout_ms).bind ?_
    rintro _ res rfl
    cases res with
    | error e => exact rfl
    | ok counts => exact ih (fun f hf => hfeeds f (List.mem_cons_of_mem _ hf)) _ _

/-! ## Requests -/

/-- What a request answers. -/
def Answers (s : Local) : Handled → Prop
  | .ok (.removed true, _) => ∃ id, s.req = .Remove id ∧ s.sweep.Done id
  | _ => s.sweep = .none

theorem obeys_rss_add {url : String} :
    Obeys requestProtocol Answers { Local.start (.Add url) with running := true } (rss_add url) := by
  refine (obeys_list_feeds rfl).bind ?_
  rintro s₁ res ⟨rows, rfl, (⟨⟨f, hf⟩, rfl⟩ | ⟨hnone, t, ht, rfl⟩)⟩
  · simp only [hf]
    exact rfl
  · simp only [hnone]
    refine ⟨not_drawn_of_open ht, fun r s₂ hr => ?_⟩
    cases r with
    | error e => cases hr
    | ok id =>
      obtain rfl := Option.some.inj hr
      refine ⟨trivial, fun now s₃ hr => ?_⟩
      obtain rfl := Option.some.inj hr
      refine ⟨draw_of_open ht, fun r s₄ hr => ?_⟩
      cases r with
      | error e => cases hr
      | ok =>
        obtain rfl := Option.some.inj hr
        exact rfl

/-- By induction over the articles that are left. -/
theorem obeys_delete_articles {id : String} (articles : List Article) :
    ∀ s : Local, s.sweep = .rest id (articles.map Article.id) →
      Obeys requestProtocol (fun s' _ => s' = { s with sweep := .rest id [] }) s
        (delete_articles articles) := by
  induction articles with
  | nil =>
    intro s hs
    show s = { s with sweep := .rest id [] }
    exact congrArg (fun sweep => { s with sweep }) hs
  | cons a articles ih =>
    intro s hs
    refine ⟨⟨id, _, hs⟩, fun r s₁ hr => ?_⟩
    cases r with
    | error e => cases hr
    | ok deleted =>
      obtain rfl := Option.some.inj hr
      exact ih { s with sweep := s.sweep.tail } (by rw [hs]; rfl)

theorem obeys_rss_remove {id : String} :
    Obeys requestProtocol Answers { Local.start (.Remove id) with running := true } (rss_remove id) := by
  refine ⟨⟨rfl, rfl, rfl⟩, fun r s₁ hr => ?_⟩
  cases r with
  | error e => cases hr
  | ok removed =>
    obtain rfl := Option.some.inj hr
    cases removed with
    | false => exact rfl
    | true =>
      refine ⟨trivial, fun r s₂ hr => ?_⟩
      cases r with
      | error e => cases hr
      | ok keys =>
        obtain rfl := Option.some.inj hr
        show Obeys _ _ _ ((if keys = [] then _ else _) >>= _)
        by_cases hkeys : keys = []
        · rw [if_pos hkeys]
          subst hkeys
          exact ⟨id, rfl, .inl rfl⟩
        · rw [if_neg hkeys]
          refine ⟨?_, fun r s₃ hr => ?_⟩
          · rintro _ _ ⟨⟩
            rfl
          · cases r with
            | error e => cases hr
            | ok rows =>
              obtain rfl := Option.some.inj hr
              refine (obeys_delete_articles _ _ rfl).bind ?_
              rintro _ _ rfl
              exact ⟨id, rfl, .inr rfl⟩

theorem obeys_rss_fetch {id : String} {timeout_ms : UInt64} :
    Obeys requestProtocol Answers { Local.start (.Fetch id timeout_ms) with running := true }
      (rss_fetch crates id timeout_ms) := by
  refine ⟨trivial, fun r s₁ hr => ?_⟩
  cases r with
  | error e => cases hr
  | ok feed =>
    obtain rfl := Option.some.inj hr
    cases feed with
    | none => exact rfl
    | some feed =>
      have hreq : Fetches (.Fetch id timeout_ms) := trivial
      refine (obeys_fetch_feed (List.mem_singleton.mpr rfl) rfl hreq timeout_ms).bind ?_
      rintro _ res rfl
      cases res with
      | error e => exact rfl
      | ok counts => exact rfl

/-- A listing in which nothing is looked up. -/
theorem obeys_list_feeds_none :
    Obeys requestProtocol (fun s' res => ∃ rows, res = .ok rows ∧
        (s' = s ∧ rows = [] ∨ s' = { s with feeds := rows })) s (Db.list_feeds none) := by
  refine ⟨trivial, fun r s₁ hr => ?_⟩
  cases r with
  | error e => cases hr
  | ok keys =>
    obtain rfl := Option.some.inj hr
    show Obeys _ _ _ (if keys = [] then _ else _)
    by_cases hkeys : keys = []
    · rw [if_pos hkeys]
      exact ⟨[], rfl, .inl ⟨rfl, rfl⟩⟩
    · rw [if_neg hkeys]
      refine ⟨trivial, fun r s₂ hr => ?_⟩
      cases r with
      | error e => cases hr
      | ok rows =>
        obtain rfl := Option.some.inj hr
        exact ⟨rows, rfl, .inr rfl⟩

theorem obeys_rss_fetch_all {timeout_ms : UInt64} :
    Obeys requestProtocol Answers { Local.start (.FetchAll timeout_ms) with running := true }
      (rss_fetch_all crates timeout_ms) := by
  refine obeys_list_feeds_none.bind ?_
  rintro s₁ res ⟨rows, rfl, (⟨rfl, rfl⟩ | rfl)⟩
  · exact rfl
  · have hreq : Fetches (.FetchAll timeout_ms) := trivial
    refine (obeys_fetch_feeds timeout_ms rows (fun f hf => hf) rfl hreq 0 0).bind ?_
    rintro _ res rfl
    cases res with
    | error e => exact rfl
    | ok counts => exact rfl

theorem obeys_rss_articles {feed_id query : Option String} {unread_only : Bool} {limit offset : Nat} :
    Obeys requestProtocol Answers
      { Local.start (.Articles feed_id unread_only query limit offset) with running := true }
      (rss_articles crates feed_id unread_only query limit offset) := by
  refine ⟨trivial, fun r s₁ hr => ?_⟩
  cases r with
  | error e => cases hr
  | ok keys =>
    obtain rfl := Option.some.inj hr
    show Obeys _ _ _ ((if keys = [] then _ else _) >>= _)
    by_cases hkeys : keys = []
    · rw [if_pos hkeys]
      exact rfl
    · rw [if_neg hkeys]
      refine ⟨?_, fun r s₂ hr => ?_⟩
      · rintro _ _ ⟨⟩
      · cases r with
        | error e => cases hr
        | ok rows =>
          obtain rfl := Option.some.inj hr
          exact rfl

theorem obeys_rss_mark_read {id : String} {read : Bool} :
    Obeys requestProtocol Answers { Local.start (.MarkRead id read) with running := true }
      (rss_mark_read id read) := by
  refine ⟨trivial, fun r s₁ hr => ?_⟩
  cases r with
  | error e => cases hr
  | ok article =>
    obtain rfl := Option.some.inj hr
    cases article with
    | none => exact rfl
    | some article =>
      refine ⟨⟨article, rfl, rfl, rfl, rfl⟩, fun r s₂ hr => ?_⟩
      cases r with
      | error e => cases hr
      | ok =>
        obtain rfl := Option.some.inj hr
        exact rfl

theorem obeys_handle_action (req : RssRequest) :
    Obeys requestProtocol Answers { Local.start req with running := true }
      (handle_action crates req) := by
  cases req with
  | Add url => exact obeys_rss_add
  | Remove id => exact obeys_rss_remove
  | List =>
    refine obeys_list_feeds_none.bind ?_
    rintro s₁ res ⟨rows, rfl, (⟨rfl, rfl⟩ | rfl)⟩ <;> exact rfl
  | Fetch id timeout_ms => exact obeys_rss_fetch
  | FetchAll timeout_ms => exact obeys_rss_fetch_all
  | Articles feed_id unread_only query limit offset => exact obeys_rss_articles
  | MarkRead id read => exact obeys_rss_mark_read
  | Status => exact rfl

/-- A request, from its arrival to the event after its answer. -/
theorem obeys_task (req : RssRequest) :
    Obeys requestProtocol (fun _ _ => True) (Local.start req) (req.task crates) := by
  refine ⟨trivial, fun _ s₁ hr => ?_⟩
  obtain rfl := Option.some.inj hr
  refine (obeys_handle_action req).bind ?_
  intro s₂ res hres
  cases res with
  | error e => exact ⟨hres, fun _ _ _ => trivial⟩
  | ok answer =>
    obtain ⟨reply, event⟩ := answer
    have hreply : s₂.Allowed (.reply (.ok reply)) := by
      cases reply with
      | removed removed =>
        cases removed with
        | false => exact hres
        | true => exact hres
      | _ => exact hres
    refine ⟨hreply, fun _ s₃ _ => ?_⟩
    cases event with
    | none => trivial
    | some event => exact ⟨trivial, fun _ _ _ => trivial⟩

end Rss
