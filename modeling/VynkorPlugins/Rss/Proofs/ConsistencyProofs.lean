import Mathlib
import VynkorPlugins.Rss.Proofs.TaskProofs

/-!
# The feed store over whole runs

URLs and links stay unique because a request that stores one is the last that looks for it. An article
whose feed is gone is one that the removal of the feed has still to delete.
-/

namespace Rss

open Async Transition

variable {requests : Nat → RssRequest} {w w' : World} {g : Nat → Local} {i : Nat}

/-! ## The invariant -/

/-- The removal of a feed is under way. -/
def Sweep.Of (id : String) : Sweep → Prop
  | .none => False
  | .deleted id' => id' = id
  | .listed id' _ => id' = id
  | .rest id' _ => id' = id

/-- The article is deleted before the removal ends. -/
def Sweep.Covers (a : Article) : Sweep → Prop
  | .none => False
  | .deleted id => a.feed_id = id
  | .listed id keys => a.feed_id = id ∧ a.id ∈ keys
  | .rest id ids => a.feed_id = id ∧ a.id ∈ ids

/-- What a request has at hand is as the history says. -/
structure Known (requests : Nat → RssRequest) (h : History) (i : Nat) (s : Local) : Prop where
  req : s.req = requests i
  running : s.running = true → i ∈ h.running
  feeds : ∀ f ∈ s.feeds, h.feeds.filed f.id = some f.url
  article : ∀ a, s.article = some a → h.articles.filed a.id = some (a.feed_id, a.link)
  link : ∀ l, s.looking.wants = some l → l ≠ ""
  sweep : s.sweep = .none ∨
    s.running = true ∧ ∃ id, s.req = .Remove id ∧ s.sweep.Of id ∧ id ∈ h.deleted

/-- The removals, the feeds and the articles. -/
structure Swept (sweeps : Nat → Sweep) (w : World) : Prop where
  deleted : ∀ id ∈ w.history.deleted, w.feeds[id]? = none ∧ w.history.feeds.filed id ≠ none
  removed : ∀ id ∈ w.history.removed, id ∈ w.history.deleted
  listing : ∀ id, ∀ i ∈ w.history.to_list id, sweeps i = .deleted id
  covered : ∀ (id : String) (a : Article), w.articles[id]? = some a → w.feeds[a.feed_id]? = none →
    ∃ i, (sweeps i).Covers a

def feedRows (w : World) (id : String) : Option Feed := w.feeds[id]?

def articleRows (w : World) (id : String) : Option Article := w.articles[id]?

def articleKey (a : Article) : String × String := (a.feed_id, a.link)

/-- Ids are numbers. -/
def idOf (n : Nat) : String := toString n

theorem idOf_injective : Function.Injective idOf := fun _ _ h => Nat.repr_injective h

structure Inv (requests : Nat → RssRequest) (g : Nat → Local) (w : World) : Prop where
  known : ∀ i, Known requests w.history i (g i)
  feeds : Shelved Feed.url id idOf (feedRows w) w.next_feed_id w.history.feeds (Local.adding ∘ g)
  articles : Shelved articleKey Prod.snd idOf (articleRows w) w.next_article_id w.history.articles
    (Local.looking ∘ g)
  nonempty : ∀ (id : String) (a : Article), w.articles[id]? = some a → a.link ≠ ""
  swept : Swept (Local.sweep ∘ g) w

/-! ## What a step of a request leaves to the others -/

/-- What the history says of the others stays. -/
structure Keeps (i : Nat) (h h' : History) : Prop where
  running : ∀ j ≠ i, j ∈ h.running → j ∈ h'.running
  feeds : ∀ id url, h.feeds.filed id = some url → h'.feeds.filed id = some url
  articles : ∀ id k, h.articles.filed id = some k → h'.articles.filed id = some k
  deleted : ∀ id ∈ h.deleted, id ∈ h'.deleted

theorem Keeps.refl (i : Nat) (h : History) : Keeps i h h :=
  ⟨fun _ _ hj => hj, fun _ _ hid => hid, fun _ _ hid => hid, fun _ hid => hid⟩

theorem Known.keep {h h' : History} {j : Nat} {s : Local} (hk : Known requests h j s)
    (hkeeps : Keeps i h h') (hj : j ≠ i) : Known requests h' j s where
  req := hk.req
  running hr := hkeeps.running j hj (hk.running hr)
  feeds f hf := hkeeps.feeds _ _ (hk.feeds f hf)
  article a ha := hkeeps.articles _ _ (hk.article a ha)
  link := hk.link
  sweep := by
    rcases hk.sweep with hnone | ⟨hr, id, hreq, hof, hid⟩
    · exact .inl hnone
    · exact .inr ⟨hr, id, hreq, hof, hkeeps.deleted id hid⟩

/-- A request moves on. -/
theorem Inv.act (h : Inv requests g w) {s : Local} (hkeeps : Keeps i w.history w'.history)
    (hknown : Known requests w'.history i s)
    (hfeeds : Shelved Feed.url id idOf (feedRows w') w'.next_feed_id w'.history.feeds
      (Function.update (Local.adding ∘ g) i s.adding))
    (harticles : Shelved articleKey Prod.snd idOf (articleRows w') w'.next_article_id
      w'.history.articles (Function.update (Local.looking ∘ g) i s.looking))
    (hnonempty : ∀ (id : String) (a : Article), w'.articles[id]? = some a → a.link ≠ "")
    (hswept : Swept (Function.update (Local.sweep ∘ g) i s.sweep) w') :
    Inv requests (Function.update g i s) w' where
  known j := by
    by_cases hj : j = i
    · subst hj
      rwa [Function.update_self]
    · rw [Function.update_of_ne hj]
      exact (h.known j).keep hkeeps hj
  feeds := by rwa [Function.comp_update]
  articles := by rwa [Function.comp_update]
  nonempty := hnonempty
  swept := by rwa [Function.comp_update]

/-- What a request seeks, and the removal that it is, stay as they are. -/
theorem Inv.same_feeds (h : Inv requests g w) {t : Seek String String} (ht : t = (g i).adding) :
    Shelved Feed.url id idOf (feedRows w) w.next_feed_id w.history.feeds
      (Function.update (Local.adding ∘ g) i t) := by
  subst ht
  rw [show (g i).adding = (Local.adding ∘ g) i from rfl, Function.update_eq_self]
  exact h.feeds

theorem Inv.same_articles (h : Inv requests g w) {t : Seek String String} (ht : t = (g i).looking) :
    Shelved articleKey Prod.snd idOf (articleRows w) w.next_article_id w.history.articles
      (Function.update (Local.looking ∘ g) i t) := by
  subst ht
  rw [show (g i).looking = (Local.looking ∘ g) i from rfl, Function.update_eq_self]
  exact h.articles

theorem Inv.same_swept (h : Inv requests g w) {t : Sweep} (ht : t = (g i).sweep) :
    Swept (Function.update (Local.sweep ∘ g) i t) w := by
  subst ht
  rw [show (g i).sweep = (Local.sweep ∘ g) i from rfl, Function.update_eq_self]
  exact h.swept

/-- A step that only reads. -/
theorem Inv.read (h : Inv requests g w) {s : Local} (hknown : Known requests w.history i s)
    (hadding : s.adding = (g i).adding) (hlooking : s.looking = (g i).looking)
    (hsweep : s.sweep = (g i).sweep) : Inv requests (Function.update g i s) w :=
  h.act (.refl i _) hknown (h.same_feeds hadding) (h.same_articles hlooking) h.nonempty
    (h.same_swept hsweep)

/-! ## Reading -/

theorem mem_feed_rows {keys : List String} {f : Feed} :
    f ∈ w.feed_rows keys ↔ ∃ id ∈ keys, w.feeds[id]? = some f := by
  simp only [World.feed_rows, List.mem_map, Prod.exists, Table.mem_selectWhere, decide_eq_true_eq]
  constructor
  · rintro ⟨id, f', ⟨hget, hid⟩, rfl⟩
    exact ⟨id, hid, hget⟩
  · rintro ⟨id, hid, hget⟩
    exact ⟨id, f, ⟨hget, hid⟩, rfl⟩

theorem mem_article_rows {keys : List String} {a : Article} :
    a ∈ w.article_rows keys ↔ ∃ id ∈ keys, w.articles[id]? = some a := by
  simp only [World.article_rows, List.mem_map, Prod.exists, Table.mem_selectWhere, decide_eq_true_eq]
  constructor
  · rintro ⟨id, a', ⟨hget, hid⟩, rfl⟩
    exact ⟨id, hid, hget⟩
  · rintro ⟨id, hid, hget⟩
    exact ⟨id, a, ⟨hget, hid⟩, rfl⟩

theorem mem_keys_of_get {ρ : Type} {t : Table String ρ} {id : String} {r : ρ} (h : t[id]? = some r) :
    id ∈ t.keys := by
  rw [Std.ExtTreeMap.mem_keys, Std.ExtTreeMap.mem_iff_isSome_getElem?, h]
  rfl

/-- What is stored is filed. -/
theorem Inv.feed_filed (h : Inv requests g w) {id : String} {f : Feed} (hf : w.feeds[id]? = some f) :
    w.history.feeds.filed f.id = some f.url := by
  rw [w.feed_keyed id f hf]
  exact h.feeds.filed id f hf

theorem Inv.article_filed (h : Inv requests g w) {id : String} {a : Article}
    (ha : w.articles[id]? = some a) : w.history.articles.filed a.id = some (a.feed_id, a.link) := by
  rw [w.article_keyed id a ha]
  exact h.articles.filed id a ha

theorem Inv.ready (h : Inv requests g w) :
    Inv requests (Function.update g i { g i with running := true })
      (w.setHistory { w.history with running := i :: w.history.running }) := by
  have hk := h.known i
  refine h.act ?_ ?_ (h.same_feeds rfl) (h.same_articles rfl) h.nonempty ?_
  · exact ⟨fun _ _ hj => List.mem_cons_of_mem _ hj, fun _ _ hid => hid, fun _ _ hid => hid,
      fun _ hid => hid⟩
  · refine { hk with running := fun _ => List.mem_cons_self, sweep := ?_ }
    rcases hk.sweep with hnone | ⟨-, hof⟩
    · exact .inl hnone
    · exact .inr ⟨rfl, hof⟩
  · have hsame := h.same_swept (i := i) (t := (g i).sweep) rfl
    exact ⟨hsame.deleted, hsame.removed, hsame.listing, hsame.covered⟩

/-! ## Looking for a URL or a link -/

theorem Inv.feed_keys (h : Inv requests g w) (url : String) :
    Inv requests (Function.update g i { g i with adding := .listed url w.feeds.keys })
      (w.setHistory { w.history with feeds := w.history.feeds.seek i url }) := by
  have hk := h.known i
  refine h.act ?_ ?_ (h.feeds.list i fun id f hf => mem_keys_of_get hf) (h.same_articles rfl)
    h.nonempty ?_
  · exact ⟨fun _ _ hj => hj, fun _ _ hid => hid, fun _ _ hid => hid, fun _ hid => hid⟩
  · exact { hk with }
  · have hsame := h.same_swept (i := i) (t := (g i).sweep) rfl
    exact ⟨hsame.deleted, hsame.removed, hsame.listing, hsame.covered⟩

theorem Inv.get_feeds (h : Inv requests g w) {url : String} {keys : List String}
    (hs : (g i).adding = .listed url keys) :
    Inv requests
      (Function.update g i { g i with adding := (g i).adding.read ((w.feed_rows keys).map Feed.url) })
      (w.read_feeds i (some url) (w.feed_rows keys)) := by
  have hk := h.known i
  have hsame := h.same_swept (i := i) (t := (g i).sweep) rfl
  rw [hs]
  by_cases hmem : url ∈ (w.feed_rows keys).map Feed.url
  · simp only [World.read_feeds, Seek.read, if_pos hmem]
    refine h.act ?_ { hk with } (h.feeds.leave i url) (h.same_articles rfl) h.nonempty
      ⟨hsame.deleted, hsame.removed, hsame.listing, hsame.covered⟩
    exact ⟨fun _ _ hj => hj, fun _ _ hid => hid, fun _ _ hid => hid, fun _ hid => hid⟩
  · simp only [World.read_feeds, Seek.read, if_neg hmem]
    refine h.act (.refl i _) { hk with } (h.feeds.miss i hs ?_) (h.same_articles rfl) h.nonempty hsame
    rintro id f hf hid rfl
    exact hmem (List.mem_map.mpr ⟨f, mem_feed_rows.mpr ⟨id, hid, hf⟩, rfl⟩)

theorem Inv.article_keys (h : Inv requests g w) {link : String} (hlink : link ≠ "") :
    Inv requests (Function.update g i { g i with looking := .listed link w.articles.keys })
      (w.setHistory { w.history with articles := w.history.articles.seek i link }) := by
  have hk := h.known i
  refine h.act ?_ ?_ (h.same_feeds rfl) (h.articles.list i fun id a ha => mem_keys_of_get ha)
    h.nonempty ?_
  · exact ⟨fun _ _ hj => hj, fun _ _ hid => hid, fun _ _ hid => hid, fun _ hid => hid⟩
  · refine { hk with link := ?_ }
    rintro l ⟨⟩
    exact hlink
  · have hsame := h.same_swept (i := i) (t := (g i).sweep) rfl
    exact ⟨hsame.deleted, hsame.removed, hsame.listing, hsame.covered⟩

theorem Inv.get_articles (h : Inv requests g w) {link : String} {keys : List String}
    (hs : (g i).looking = .listed link keys) :
    Inv requests
      (Function.update g i
        { g i with looking := (g i).looking.read ((w.article_rows keys).map Article.link) })
      (w.read_articles i (some link) (w.article_rows keys)) := by
  have hk := h.known i
  have hsame := h.same_swept (i := i) (t := (g i).sweep) rfl
  have hlink : link ≠ "" := hk.link link (by rw [hs]; rfl)
  rw [hs]
  by_cases hmem : link ∈ (w.article_rows keys).map Article.link
  · simp only [World.read_articles, Seek.read, if_pos hmem]
    refine h.act ?_ { hk with link := by rintro l ⟨⟩ } (h.same_feeds rfl) (h.articles.leave i link) h.nonempty
      ⟨hsame.deleted, hsame.removed, hsame.listing, hsame.covered⟩
    exact ⟨fun _ _ hj => hj, fun _ _ hid => hid, fun _ _ hid => hid, fun _ hid => hid⟩
  · simp only [World.read_articles, Seek.read, if_neg hmem]
    refine h.act (.refl i _) { hk with link := ?_ } (h.same_feeds rfl) (h.articles.miss i hs ?_)
      h.nonempty hsame
    · rintro l ⟨⟩
      exact hlink
    · rintro id a ha hid rfl
      exact hmem (List.mem_map.mpr ⟨a, mem_article_rows.mpr ⟨id, hid, ha⟩, rfl⟩)

/-- A request draws an id for a feed. -/
theorem Inv.draw_feed (h : Inv requests g w) (hs : ∀ n id, (g i).adding ≠ .drawn n id) :
    Inv requests
      (Function.update g i { g i with adding := (g i).adding.draw (idOf (w.next_feed_id + 1)) })
      { w with
        next_feed_id := w.next_feed_id + 1
        history := { w.history with
          feeds := w.history.feeds.draw i (idOf (w.next_feed_id + 1)) } } := by
  have hk := h.known i
  refine h.act ?_ ?_ (h.feeds.draw idOf_injective i hs) (h.same_articles rfl) h.nonempty ?_
  · exact ⟨fun _ _ hj => hj, fun _ _ hid => hid, fun _ _ hid => hid, fun _ hid => hid⟩
  · exact { hk with }
  · have hsame := h.same_swept (i := i) (t := (g i).sweep) rfl
    exact ⟨hsame.deleted, hsame.removed, hsame.listing, hsame.covered⟩

theorem Inv.draw_article (h : Inv requests g w) (hs : ∀ n id, (g i).looking ≠ .drawn n id) :
    Inv requests
      (Function.update g i { g i with looking := (g i).looking.draw (idOf (w.next_article_id + 1)) })
      { w with
        next_article_id := w.next_article_id + 1
        history := { w.history with
          articles := w.history.articles.draw i (idOf (w.next_article_id + 1)) } } := by
  have hk := h.known i
  refine h.act ?_ ?_ (h.same_feeds rfl) (h.articles.draw idOf_injective i hs) h.nonempty ?_
  · exact ⟨fun _ _ hj => hj, fun _ _ hid => hid, fun _ _ hid => hid, fun _ hid => hid⟩
  · refine { hk with link := fun l hl => hk.link l ?_ }
    rwa [Seek.wants_draw] at hl
  · have hsame := h.same_swept (i := i) (t := (g i).sweep) rfl
    exact ⟨hsame.deleted, hsame.removed, hsame.listing, hsame.covered⟩

/-! ## Storing a feed -/

theorem feedRows_put_feed (f : Feed) :
    feedRows (w.put_feed f) = Function.update (feedRows w) f.id (some f) := by
  funext id
  show (w.feeds.insert f.id f)[id]? = _
  rw [Table.getElem?_insert_ite]
  by_cases hid : f.id = id
  · subst hid
    rw [if_pos rfl, Function.update_self]
  · rw [if_neg hid, Function.update_of_ne (Ne.symm hid)]
    rfl

theorem articleRows_put_article (a : Article) :
    articleRows (w.put_article a) = Function.update (articleRows w) a.id (some a) := by
  funext id
  show (w.articles.insert a.id a)[id]? = _
  rw [Table.getElem?_insert_ite]
  by_cases hid : a.id = id
  · subst hid
    rw [if_pos rfl, Function.update_self]
  · rw [if_neg hid, Function.update_of_ne (Ne.symm hid)]
    rfl

/-- A row is replaced by another one with its key. -/
theorem overwrite {ρ κ : Type} {key : ρ → κ} {rows : String → Option ρ} {id : String} {r₀ r : ρ}
    (h₀ : rows id = some r₀) (hkey : key r₀ = key r) (id' : String) (r' : ρ)
    (hr' : Function.update rows id (some r) id' = some r') :
    ∃ r, rows id' = some r ∧ key r = key r' := by
  by_cases hid : id' = id
  · subst hid
    rw [Function.update_self] at hr'
    obtain rfl := Option.some.inj hr'
    exact ⟨r₀, h₀, hkey⟩
  · rw [Function.update_of_ne hid] at hr'
    exact ⟨r', hr', rfl⟩

theorem get_of_contains {ρ : Type} {t : Table String ρ} {id : String} (h : t.contains id = true) :
    ∃ r, t[id]? = some r := by
  rw [Std.ExtTreeMap.contains_eq_isSome_getElem?] at h
  exact Option.isSome_iff_exists.mp h

/-- A feed that is stored has not been deleted. -/
theorem Swept.put_feed {sweeps : Nat → Sweep} (h : Swept sweeps w) {f : Feed}
    (hf : f.id ∉ w.history.deleted) : Swept sweeps (w.put_feed f) where
  deleted id hid := by
    refine ⟨?_, (h.deleted id hid).2⟩
    have hne : id ≠ f.id := by
      rintro rfl
      exact hf hid
    show feedRows (w.put_feed f) id = none
    rw [feedRows_put_feed, Function.update_of_ne hne]
    exact (h.deleted id hid).1
  removed := h.removed
  listing := h.listing
  covered id a ha hnone := by
    have hnone' : feedRows (w.put_feed f) a.feed_id = none := hnone
    rw [feedRows_put_feed] at hnone'
    by_cases hid : a.feed_id = f.id
    · rw [hid, Function.update_self] at hnone'
      cases hnone'
    · rw [Function.update_of_ne hid] at hnone'
      exact h.covered id a ha hnone'

/-- A new feed, for whose URL no other request looks. -/
theorem Inv.add_feed (h : Inv requests g w) {f : Feed} (hs : (g i).adding = .drawn f.url f.id)
    (halone : ∀ j ∈ w.history.feeds.seekers f.url, j = i) :
    Inv requests (Function.update g i { g i with adding := .idle })
      ((w.put_feed f).setHistory
        { w.history with feeds := (w.history.feeds.file f.id f.url).leave i f.url }) := by
  have hk := h.known i
  have hnew : w.history.feeds.filed f.id = none := (h.feeds.drawn i f.url f.id hs).2
  have hfiled : ∀ id url, w.history.feeds.filed id = some url →
      ((w.history.feeds.file f.id f.url).leave i f.url).filed id = some url := by
    intro id url hid
    show Function.update w.history.feeds.filed f.id (some f.url) id = some url
    have hne : id ≠ f.id := by
      rintro rfl
      rw [hnew] at hid
      cases hid
    rwa [Function.update_of_ne hne]
  have hgone : f.id ∉ w.history.deleted := fun hid => (h.swept.deleted f.id hid).2 hnew
  have hput := (h.same_swept (i := i) (t := (g i).sweep) rfl).put_feed hgone
  refine h.act ?_ ?_ ?_ (h.same_articles rfl) h.nonempty ?_
  · exact ⟨fun _ _ hj => hj, hfiled, fun _ _ hid => hid, fun _ hid => hid⟩
  · exact { hk with feeds := fun c hc => hfiled _ _ (hk.feeds c hc) }
  · have hstore := h.feeds.store i (r := f) hs halone
    rw [← feedRows_put_feed] at hstore
    exact hstore
  · refine ⟨fun id hid => ⟨(hput.deleted id hid).1, ?_⟩, hput.removed, hput.listing, hput.covered⟩
    obtain ⟨url, hurl⟩ := Option.ne_none_iff_exists'.mp (hput.deleted id hid).2
    exact fun hnone => nomatch (hfiled id url hurl).symm.trans hnone

/-- Another title of a feed that is still stored. -/
theorem Inv.retitle (h : Inv requests g w) {f c : Feed} (hc : c ∈ (g i).feeds) (hid : c.id = f.id)
    (hurl : c.url = f.url) (hstored : w.feeds.contains f.id = true) :
    Inv requests (Function.update g i (g i)) ((w.put_feed f).setHistory w.history) := by
  have hk := h.known i
  obtain ⟨f₀, hf₀⟩ := get_of_contains hstored
  have hkey : f₀.url = f.url := by
    have hcopy := hk.feeds c hc
    rw [hid, hurl] at hcopy
    exact Option.some.inj ((h.feeds.filed f.id f₀ hf₀).symm.trans hcopy)
  have hgone : f.id ∉ w.history.deleted := by
    intro hdeleted
    rw [(h.swept.deleted f.id hdeleted).1] at hf₀
    cases hf₀
  have hput := (h.same_swept (i := i) (t := (g i).sweep) rfl).put_feed hgone
  refine h.act (.refl i _) hk ?_ (h.same_articles rfl) h.nonempty
    ⟨hput.deleted, hput.removed, hput.listing, hput.covered⟩
  refine (h.same_feeds rfl).shrink fun id r' hr' => ?_
  have hupdate : feedRows (w.put_feed f) id = some r' := hr'
  rw [feedRows_put_feed] at hupdate
  exact overwrite hf₀ hkey id r' hupdate

/-! ## Storing an article -/

theorem Swept.put_article {sweeps : Nat → Sweep} (h : Swept sweeps w) {a : Article}
    (ha : w.feeds[a.feed_id]? = none → ∃ i, (sweeps i).Covers a) : Swept sweeps (w.put_article a) where
  deleted := h.deleted
  removed := h.removed
  listing := h.listing
  covered id a' ha' hnone := by
    have hupdate : articleRows (w.put_article a) id = some a' := ha'
    rw [articleRows_put_article] at hupdate
    by_cases hid : id = a.id
    · subst hid
      rw [Function.update_self] at hupdate
      obtain rfl := Option.some.inj hupdate
      exact ha hnone
    · rw [Function.update_of_ne hid] at hupdate
      exact h.covered id a' hupdate hnone

theorem nonempty_put_article {a : Article} (ha : a.link ≠ "")
    (h : ∀ (id : String) (a : Article), w.articles[id]? = some a → a.link ≠ "") (id : String)
    (a' : Article) (ha' : (w.put_article a).articles[id]? = some a') : a'.link ≠ "" := by
  have hupdate : articleRows (w.put_article a) id = some a' := ha'
  rw [articleRows_put_article] at hupdate
  by_cases hid : id = a.id
  · subst hid
    rw [Function.update_self] at hupdate
    obtain rfl := Option.some.inj hupdate
    exact ha
  · rw [Function.update_of_ne hid] at hupdate
    exact h id a' hupdate

/-- A new article, for whose link no other request looks. Its feed is stored, or is one whose articles
    have still to be listed. -/
theorem Inv.add_article (h : Inv requests g w) {a : Article}
    (hs : (g i).looking = .drawn a.link a.id)
    (halone : ∀ j ∈ w.history.articles.seekers a.link, j = i)
    (hfeed : w.feeds.contains a.feed_id = true ∨ w.history.to_list a.feed_id ≠ []) :
    Inv requests (Function.update g i { g i with looking := .idle })
      ((w.put_article a).setHistory { w.history with
        articles := (w.history.articles.file a.id (a.feed_id, a.link)).leave i a.link }) := by
  have hk := h.known i
  have hnew : w.history.articles.filed a.id = none := (h.articles.drawn i a.link a.id hs).2
  have hlink : a.link ≠ "" := hk.link a.link (by rw [hs]; rfl)
  have hfiled : ∀ id k, w.history.articles.filed id = some k →
      ((w.history.articles.file a.id (a.feed_id, a.link)).leave i a.link).filed id = some k := by
    intro id k hid
    show Function.update w.history.articles.filed a.id (some (a.feed_id, a.link)) id = some k
    have hne : id ≠ a.id := by
      rintro rfl
      rw [hnew] at hid
      cases hid
    rwa [Function.update_of_ne hne]
  have hsame := h.same_swept (i := i) (t := (g i).sweep) rfl
  have hcovered : w.feeds[a.feed_id]? = none →
      ∃ j, (Function.update (Local.sweep ∘ g) i (g i).sweep j).Covers a := by
    intro hnone
    rcases hfeed with hstored | hlist
    · obtain ⟨f, hf⟩ := get_of_contains hstored
      rw [hnone] at hf
      cases hf
    · obtain ⟨j, hj⟩ := List.exists_mem_of_ne_nil _ hlist
      refine ⟨j, ?_⟩
      rw [hsame.listing a.feed_id j hj]
      exact rfl
  have hput := hsame.put_article hcovered
  refine h.act ?_ ?_ (h.same_feeds rfl) ?_ (nonempty_put_article hlink h.nonempty)
    ⟨hput.deleted, hput.removed, hput.listing, hput.covered⟩
  · exact ⟨fun _ _ hj => hj, fun _ _ hid => hid, hfiled, fun _ hid => hid⟩
  · exact { hk with link := nofun, article := fun c hc => hfiled _ _ (hk.article c hc) }
  · have hstore := h.articles.store i (r := a) hs halone
    rw [← articleRows_put_article] at hstore
    exact hstore

/-- An article that is still stored is marked. -/
theorem Inv.mark (h : Inv requests g w) {a c : Article} (hc : (g i).article = some c)
    (hid : c.id = a.id) (hfeed : c.feed_id = a.feed_id) (hlink : c.link = a.link)
    (hstored : w.articles.contains a.id = true) :
    Inv requests (Function.update g i (g i)) ((w.put_article a).setHistory w.history) := by
  have hk := h.known i
  obtain ⟨a₀, ha₀⟩ := get_of_contains hstored
  have hkey : articleKey a₀ = articleKey a := by
    have hcopy := hk.article c hc
    rw [hid, hfeed, hlink] at hcopy
    exact Option.some.inj ((h.articles.filed a.id a₀ ha₀).symm.trans hcopy)
  obtain ⟨hfeed₀, hlink₀⟩ := Prod.mk.inj hkey
  have hsame := h.same_swept (i := i) (t := (g i).sweep) rfl
  have hcovered : w.feeds[a.feed_id]? = none →
      ∃ j, (Function.update (Local.sweep ∘ g) i (g i).sweep j).Covers a := by
    intro hnone
    obtain ⟨j, hj⟩ := hsame.covered a.id a₀ ha₀ (by rwa [hfeed₀])
    refine ⟨j, ?_⟩
    have hid₀ := w.article_keyed a.id a₀ ha₀
    revert hj
    unfold Sweep.Covers
    rw [hfeed₀, hid₀]
    exact fun hj => hj
  have hput := hsame.put_article hcovered
  have hnonempty : a.link ≠ "" := hlink₀ ▸ h.nonempty a.id a₀ ha₀
  refine h.act (.refl i _) hk (h.same_feeds rfl) ?_ (nonempty_put_article hnonempty h.nonempty)
    ⟨hput.deleted, hput.removed, hput.listing, hput.covered⟩
  refine (h.same_articles rfl).shrink fun id r' hr' => ?_
  have hupdate : articleRows (w.put_article a) id = some r' := hr'
  rw [articleRows_put_article] at hupdate
  exact overwrite ha₀ hkey id r' hupdate

/-! ## The removal of a feed -/

theorem get_erase {ρ : Type} {t : Table String ρ} {id id' : String} {r : ρ}
    (h : (t.erase id)[id']? = some r) : id ≠ id' ∧ t[id']? = some r := by
  rw [Table.getElem?_erase_ite] at h
  split_ifs at h with hid
  exact ⟨hid, h⟩

/-- A removal goes on, and covers what it has covered. -/
theorem Swept.step {sweeps : Nat → Sweep} (h : Swept sweeps w) {t : Sweep}
    (hdeleted : w'.history.deleted = w.history.deleted)
    (hremoved : w'.history.removed = w.history.removed) (hledger : w'.history.feeds = w.history.feeds)
    (hfeeds : w'.feeds = w.feeds)
    (hlist : ∀ id, ∀ j ∈ w'.history.to_list id, j ∈ w.history.to_list id ∧ (j = i → t = .deleted id))
    (harticles : ∀ (id : String) (a : Article), w'.articles[id]? = some a →
      w.articles[id]? = some a ∧ ((sweeps i).Covers a → t.Covers a)) :
    Swept (Function.update sweeps i t) w' where
  deleted := by
    rw [hdeleted, hfeeds, hledger]
    exact h.deleted
  removed := by
    rw [hremoved, hdeleted]
    exact h.removed
  listing id j hj := by
    obtain ⟨hold, hself⟩ := hlist id j hj
    by_cases hji : j = i
    · subst hji
      rw [Function.update_self]
      exact hself rfl
    · rw [Function.update_of_ne hji]
      exact h.listing id j hold
  covered id a ha hnone := by
    rw [hfeeds] at hnone
    obtain ⟨hold, hkeep⟩ := harticles id a ha
    obtain ⟨j, hj⟩ := h.covered id a hold hnone
    by_cases hji : j = i
    · subst hji
      refine ⟨j, ?_⟩
      rw [Function.update_self]
      exact hkeep hj
    · refine ⟨j, ?_⟩
      rwa [Function.update_of_ne hji]

/-- The feed is deleted, so that its articles have to go. -/
theorem Inv.delete_feed (h : Inv requests g w) {id : String} (hreq : (g i).req = .Remove id)
    (hs : (g i).sweep = .none) (hrunning : (g i).running = true) :
    Inv requests
      (Function.update g i
        (if w.feeds.contains id then { g i with sweep := .deleted id } else g i))
      (w.delete_feed i id) := by
  have hk := h.known i
  have hshrink : ∀ (id' : String) (f : Feed), (w.feeds.erase id)[id']? = some f →
      ∃ f', feedRows w id' = some f' ∧ f'.url = f.url := fun id' f hf => ⟨f, (get_erase hf).2, rfl⟩
  by_cases hstored : w.feeds.contains id = true
  · obtain ⟨f, hf⟩ := get_of_contains hstored
    simp only [World.delete_feed, if_pos hstored]
    refine h.act ?_ ?_ ((h.same_feeds rfl).shrink hshrink) (h.same_articles rfl) h.nonempty ?_
    · exact ⟨fun _ _ hj => hj, fun _ _ hid => hid, fun _ _ hid => hid,
        fun _ hid => List.mem_cons_of_mem _ hid⟩
    · exact { hk with sweep := .inr ⟨hrunning, id, hreq, rfl, List.mem_cons_self⟩ }
    · refine ⟨?_, ?_, ?_, ?_⟩
      · intro id' hid'
        rcases List.mem_cons.mp hid' with rfl | hid'
        · refine ⟨?_, ?_⟩
          · show (w.feeds.erase id')[id']? = none
            rw [Table.getElem?_erase_ite, if_pos rfl]
          · have hfiled := h.feeds.filed id' f hf
            show w.history.feeds.filed id' ≠ none
            rw [hfiled]
            nofun
        · obtain ⟨hnone, hfiled⟩ := h.swept.deleted id' hid'
          refine ⟨?_, hfiled⟩
          show (w.feeds.erase id)[id']? = none
          rw [Table.getElem?_erase_ite, hnone, ite_self]
      · exact fun id' hid' => List.mem_cons_of_mem _ (h.swept.removed id' hid')
      · intro id' j hj
        have hlisting : ∀ j ∈ w.history.to_list id', j ≠ i ∧ (g j).sweep = .deleted id' := by
          intro j hj
          have hsweep : (g j).sweep = .deleted id' := h.swept.listing id' j hj
          refine ⟨?_, hsweep⟩
          rintro rfl
          rw [hs] at hsweep
          cases hsweep
        have hj' : j ∈ Function.update w.history.to_list id (i :: w.history.to_list id) id' := hj
        by_cases hid : id' = id
        · subst hid
          rw [Function.update_self] at hj'
          rcases List.mem_cons.mp hj' with rfl | hj'
          · rw [Function.update_self]
          · obtain ⟨hne, hsweep⟩ := hlisting j hj'
            rw [Function.update_of_ne hne]
            exact hsweep
        · rw [Function.update_of_ne hid] at hj'
          obtain ⟨hne, hsweep⟩ := hlisting j hj'
          rw [Function.update_of_ne hne]
          exact hsweep
      · intro id' a ha hnone
        by_cases hid : a.feed_id = id
        · refine ⟨i, ?_⟩
          rw [Function.update_self]
          exact hid
        · have hgone : (w.feeds.erase id)[a.feed_id]? = none := hnone
          rw [Table.getElem?_erase_ite, if_neg (Ne.symm hid)] at hgone
          obtain ⟨j, hj⟩ := h.swept.covered id' a ha hgone
          have hne : j ≠ i := by
            rintro rfl
            have hcovers : (g j).sweep.Covers a := hj
            rw [hs] at hcovers
            exact hcovers
          refine ⟨j, ?_⟩
          rwa [Function.update_of_ne hne]
  · have hgone : w.feeds[id]? = none := by
      rw [Std.ExtTreeMap.contains_eq_isSome_getElem?] at hstored
      simpa using hstored
    have hsame := h.same_swept (i := i) (t := (g i).sweep) rfl
    simp only [World.delete_feed, if_neg hstored]
    refine h.act (.refl i _) hk ((h.same_feeds rfl).shrink hshrink) (h.same_articles rfl) h.nonempty
      ⟨?_, hsame.removed, hsame.listing, ?_⟩
    · intro id' hid'
      obtain ⟨hnone, hfiled⟩ := h.swept.deleted id' hid'
      refine ⟨?_, hfiled⟩
      show (w.feeds.erase id)[id']? = none
      rw [Table.getElem?_erase_ite, hnone, ite_self]
    · intro id' a ha hnone
      refine hsame.covered id' a ha ?_
      have herased : (w.feeds.erase id)[a.feed_id]? = none := hnone
      rw [Table.getElem?_erase_ite] at herased
      split_ifs at herased with hid
      · rw [← hid]
        exact hgone
      · exact herased

/-- What a removal says of its request. -/
theorem Inv.removing (h : Inv requests g w) {id : String} (hof : (g i).sweep.Of id) :
    requests i = .Remove id := by
  have hk := h.known i
  rcases hk.sweep with hnone | ⟨-, id', hreq, hof', -⟩
  · rw [hnone] at hof
    exact hof.elim
  · obtain rfl : id' = id := by
      cases hs : (g i).sweep with
      | none => rw [hs] at hof; exact hof.elim
      | deleted id'' => rw [hs] at hof hof'; exact hof'.symm.trans hof
      | listed id'' keys => rw [hs] at hof hof'; exact hof'.symm.trans hof
      | rest id'' ids => rw [hs] at hof hof'; exact hof'.symm.trans hof
    rw [← hk.req, hreq]

/-- The articles are listed: those of a removed feed, or to be shown. -/
theorem Inv.list_articles (h : Inv requests g w) :
    Inv requests (Function.update g i { g i with sweep := (g i).sweep.list w.articles.keys })
      (w.setHistory (w.history.list_articles i (requests i))) := by
  have hk := h.known i
  have hhistory : ∀ P : History → Prop, P w.history →
      (∀ to_list, P { w.history with to_list }) → P (w.history.list_articles i (requests i)) := by
    intro P hsame hall
    unfold History.list_articles
    split
    · exact hall _
    · exact hsame
  refine h.act ?_ ?_ ?_ ?_ h.nonempty ?_
  · exact hhistory (fun h' => Keeps i w.history h') (.refl i _)
      fun _ => ⟨fun _ _ hj => hj, fun _ _ hid => hid, fun _ _ hid => hid, fun _ hid => hid⟩
  · have hsweep : (g i).sweep.list w.articles.keys = .none ∨ (g i).running = true ∧
        ∃ id, (g i).req = .Remove id ∧ ((g i).sweep.list w.articles.keys).Of id ∧
          id ∈ w.history.deleted := by
      rcases hk.sweep with hnone | ⟨hr, id, hreq, hof, hid⟩
      · rw [hnone]
        exact .inl rfl
      · refine .inr ⟨hr, id, hreq, ?_, hid⟩
        revert hof
        cases (g i).sweep <;> exact fun hof => hof
    have hknown : Known requests w.history i
        { g i with sweep := (g i).sweep.list w.articles.keys } := { hk with sweep := hsweep }
    exact hhistory (fun h' => Known requests h' i _) hknown fun _ => { hknown with }
  · exact hhistory (fun h' => Shelved Feed.url id idOf (feedRows w) w.next_feed_id h'.feeds _)
      (h.same_feeds rfl) fun _ => h.same_feeds rfl
  · exact hhistory
      (fun h' => Shelved articleKey Prod.snd idOf (articleRows w) w.next_article_id h'.articles _)
      (h.same_articles rfl) fun _ => h.same_articles rfl
  · refine h.swept.step ?_ ?_ ?_ rfl ?_ ?_
    · exact hhistory (fun h' => h'.deleted = _) rfl fun _ => rfl
    · exact hhistory (fun h' => h'.removed = _) rfl fun _ => rfl
    · exact hhistory (fun h' => h'.feeds = _) rfl fun _ => rfl
    · -- the request lists the articles now, so that it is not one that has still to list them
      intro id j hj
      have hlisted : j ∈ w.history.to_list id ∧ j ≠ i := by
        have hmem : j ∈ w.history.to_list id := by
          revert hj
          show j ∈ (w.history.list_articles i (requests i)).to_list id → _
          unfold History.list_articles
          split
          · rename_i id' hreq
            by_cases hid : id = id'
            · subst hid
              simp only [Function.update_self, List.mem_filter]
              exact fun hj => hj.1
            · simp only [Function.update_of_ne hid]
              exact fun hj => hj
          · exact fun hj => hj
        refine ⟨hmem, ?_⟩
        rintro rfl
        have hsweep : (g j).sweep = .deleted id := h.swept.listing id j hmem
        have hreq : requests j = .Remove id := h.removing (by rw [hsweep]; exact rfl)
        revert hj
        show j ∈ (w.history.list_articles j (requests j)).to_list id → _
        rw [hreq]
        simp [History.list_articles]
      exact ⟨hlisted.1, fun heq => absurd heq hlisted.2⟩
    · intro id a ha
      refine ⟨ha, ?_⟩
      show (g i).sweep.Covers a → ((g i).sweep.list w.articles.keys).Covers a
      cases (g i).sweep with
      | deleted id' =>
        intro hcovers
        refine ⟨hcovers, ?_⟩
        rw [w.article_keyed id a ha]
        exact mem_keys_of_get ha
      | _ => exact fun hcovers => hcovers

/-- A removal that goes on without the history. -/
theorem Inv.sweep (h : Inv requests g w) {t : Sweep}
    (hof : ∀ id, (g i).sweep.Of id → t.Of id) (hnone : (g i).sweep = .none → t = .none)
    (hdeleted : ∀ id, (g i).sweep = .deleted id → t = .deleted id)
    (harticles : ∀ (id : String) (a : Article), w.articles[id]? = some a →
      (g i).sweep.Covers a → t.Covers a) :
    Inv requests (Function.update g i { g i with sweep := t }) w := by
  have hk := h.known i
  refine h.act (.refl i _) ?_ (h.same_feeds rfl) (h.same_articles rfl) h.nonempty ?_
  · refine { hk with sweep := ?_ }
    rcases hk.sweep with hs | ⟨hr, id, hreq, hof', hid⟩
    · exact .inl (hnone hs)
    · exact .inr ⟨hr, id, hreq, hof id hof', hid⟩
  · refine h.swept.step rfl rfl rfl rfl ?_ fun id a ha => ⟨ha, harticles id a ha⟩
    rintro id j hj
    refine ⟨hj, ?_⟩
    rintro rfl
    exact hdeleted id (h.swept.listing id j hj)

theorem Inv.read_articles (h : Inv requests g w) {keys : List String}
    (hkeys : ∀ id ks, (g i).sweep = .listed id ks → ks = keys) :
    Inv requests (Function.update g i { g i with sweep := (g i).sweep.read (w.article_rows keys) })
      w := by
  refine h.sweep ?_ ?_ ?_ ?_
  · intro id
    cases (g i).sweep <;> exact fun hof => hof
  · intro hs
    rw [hs]
    rfl
  · intro id hs
    rw [hs]
    rfl
  · intro id a ha
    cases hs : (g i).sweep with
    | listed id' ks =>
      obtain rfl := hkeys id' ks hs
      rintro ⟨hfeed, hid⟩
      refine ⟨hfeed, List.mem_map.mpr ⟨a, ?_, rfl⟩⟩
      rw [List.mem_filter]
      rw [w.article_keyed id a ha] at hid
      exact ⟨mem_article_rows.mpr ⟨id, hid, ha⟩, by simpa using hfeed⟩
    | _ => exact fun hcovers => hcovers

/-- One article of a removed feed is deleted. -/
theorem Inv.delete_article (h : Inv requests g w) {feed_id id : String} {ids : List String}
    (hs : (g i).sweep = .rest feed_id (id :: ids)) :
    Inv requests (Function.update g i { g i with sweep := (g i).sweep.tail })
      (w.erase_article id) := by
  have hk := h.known i
  rw [hs]
  refine h.act (.refl i _) ?_ (h.same_feeds rfl) ?_ ?_ ?_
  · refine { hk with sweep := ?_ }
    rcases hk.sweep with hnone | ⟨hr, id', hreq, hof, hid⟩
    · rw [hs] at hnone
      cases hnone
    · rw [hs] at hof
      exact .inr ⟨hr, id', hreq, hof, hid⟩
  · exact (h.same_articles rfl).shrink fun id' a ha => ⟨a, (get_erase ha).2, rfl⟩
  · exact fun id' a ha => h.nonempty id' a (get_erase ha).2
  · refine h.swept.step rfl rfl rfl rfl ?_ ?_
    · rintro id' j hj
      refine ⟨hj, ?_⟩
      rintro rfl
      have hsweep : (g j).sweep = .deleted id' := h.swept.listing id' j hj
      rw [hs] at hsweep
      cases hsweep
    · intro id' a ha
      obtain ⟨hne, ha⟩ := get_erase ha
      refine ⟨ha, ?_⟩
      show (g i).sweep.Covers a → _
      rw [hs]
      rintro ⟨hfeed, hid⟩
      refine ⟨hfeed, ?_⟩
      rcases List.mem_cons.mp hid with heq | hid
      · rw [w.article_keyed id' a ha] at heq
        exact absurd heq.symm hne
      · exact hid

/-- A request is answered: its removal, if it is one, is done. -/
theorem Inv.reply (h : Inv requests g w) {result : Except String Reply}
    (hdone : (g i).sweep = .none ∨ ∃ id, (g i).sweep.Done id)
    (hremoved : result = .ok (.removed true) → ∃ id, (g i).req = .Remove id ∧ (g i).sweep.Done id) :
    Inv requests (Function.update g i { g i with sweep := .none, running := false })
      (w.setHistory (w.history.reply i (requests i) result)) := by
  have hk := h.known i
  have hcovers : ∀ a, ¬ (g i).sweep.Covers a := by
    intro a hcovers
    rcases hdone with hs | ⟨id, hs | hs⟩
    · rw [hs] at hcovers
      exact hcovers
    · rw [hs] at hcovers
      exact List.not_mem_nil hcovers.2
    · rw [hs] at hcovers
      exact List.not_mem_nil hcovers.2
  have hlisted : ∀ id, i ∉ w.history.to_list id := by
    intro id hi
    have hsweep : (g i).sweep = .deleted id := h.swept.listing id i hi
    rcases hdone with hs | ⟨id, hs | hs⟩
    · rw [hs] at hsweep
      cases hsweep
    · rw [hs] at hsweep
      cases hsweep
    · rw [hs] at hsweep
      cases hsweep
  refine h.act ?_ ?_ (h.same_feeds rfl) (h.same_articles rfl) h.nonempty ?_
  · exact ⟨fun j hj hmem => (List.mem_erase_of_ne hj).mpr hmem, fun _ _ hid => hid,
      fun _ _ hid => hid, fun _ hid => hid⟩
  · exact { hk with running := nofun, sweep := .inl rfl }
  · refine ⟨h.swept.deleted, ?_, ?_, ?_⟩
    · intro id hid
      have hold : id ∈ w.history.removed → id ∈ w.history.deleted := h.swept.removed id
      revert hid
      show id ∈ (w.history.reply i (requests i) result).removed → id ∈ w.history.deleted
      unfold History.reply
      split
      · rename_i id' hreq
        intro hid
        rcases List.mem_cons.mp hid with rfl | hid
        · obtain ⟨id', hreq', hs⟩ := hremoved rfl
          rw [hk.req, hreq] at hreq'
          cases hreq'
          rcases hk.sweep with hnone | ⟨-, id', hreq', hof, hdel⟩
          · rw [hnone] at hs
            rcases hs with hs | hs <;> cases hs
          · rw [hk.req, hreq] at hreq'
            cases hreq'
            exact hdel
        · exact hold hid
      · exact hold
    · intro id j hj
      have hne : j ≠ i := by
        rintro rfl
        exact hlisted id hj
      rw [Function.update_of_ne hne]
      exact h.swept.listing id j hj
    · intro id a ha hnone
      obtain ⟨j, hj⟩ := h.swept.covered id a ha hnone
      have hne : j ≠ i := by
        rintro rfl
        exact hcovers a hj
      refine ⟨j, ?_⟩
      rwa [Function.update_of_ne hne]

/-! ## Steps -/

theorem put_feed_of_add {s : Local} {url : String} (hreq : s.req = .Add url) :
    s.put_feed = { s with adding := .idle } := by
  unfold Local.put_feed
  split
  · rfl
  · rename_i hne
    exact absurd hreq (hne url)

theorem put_feed_of_not {s : Local} (hreq : ∀ url, s.req ≠ .Add url) : s.put_feed = s := by
  unfold Local.put_feed
  split
  · rename_i hadd
    exact absurd hadd (hreq _)
  · rfl

theorem put_article_of_mark {s : Local} {id : String} {read : Bool} (hreq : s.req = .MarkRead id read) :
    s.put_article = s := by
  unfold Local.put_article
  split
  · rfl
  · rename_i hne
    exact absurd hreq (hne id read)

theorem put_article_of_not {s : Local} (hreq : ∀ id read, s.req ≠ .MarkRead id read) :
    s.put_article = { s with looking := .idle } := by
  unfold Local.put_article
  split
  · rename_i hmark
    exact absurd hmark (hreq _ _)
  · rfl

theorem inv_put_feed (h : Inv requests g w) {f : Feed} (hallowed : (g i).Allowed (.put_feed f))
    (hcond : Undisturbed requests w (.act i (.put_feed f) (.ok ()))) :
    Inv requests (Function.update g i (g i).put_feed) (w.store_feed (requests i) i f) := by
  have hk := h.known i
  simp only [Local.Allowed, hk.req] at hallowed
  simp only [Undisturbed] at hcond
  cases hreq : requests i with
  | Add url =>
    rw [hreq] at hallowed hcond
    rw [put_feed_of_add (hk.req.trans hreq)]
    exact h.add_feed hallowed hcond
  | _ =>
    rw [hreq] at hallowed hcond
    obtain ⟨c, hc, hid, hurl⟩ := hallowed
    have hnot : ∀ url, (g i).req ≠ .Add url := by
      intro url hadd
      cases (hk.req.trans hreq).symm.trans hadd
    rw [put_feed_of_not hnot]
    exact h.retitle hc hid hurl hcond

theorem inv_put_article (h : Inv requests g w) {a : Article}
    (hallowed : (g i).Allowed (.put_article a))
    (hcond : Undisturbed requests w (.act i (.put_article a) (.ok ()))) :
    Inv requests (Function.update g i (g i).put_article) (w.store_article (requests i) i a) := by
  have hk := h.known i
  simp only [Local.Allowed, hk.req] at hallowed
  simp only [Undisturbed] at hcond
  cases hreq : requests i with
  | MarkRead id read =>
    rw [hreq] at hallowed hcond
    obtain ⟨c, hc, hid, hfeed, hlink⟩ := hallowed
    rw [put_article_of_mark (hk.req.trans hreq)]
    exact h.mark hc hid hfeed hlink hcond
  | _ =>
    rw [hreq] at hallowed hcond
    have hnot : ∀ id read, (g i).req ≠ .MarkRead id read := by
      intro id read hmark
      cases (hk.req.trans hreq).symm.trans hmark
    rw [put_article_of_not hnot]
    exact h.add_article hallowed hcond.1 hcond.2

theorem allowed_reply {s : Local} {result : Except String Reply} (h : s.Allowed (.reply result)) :
    s.sweep = .none ∧ result ≠ .ok (.removed true) ∨ ∃ id, s.req = .Remove id ∧ s.sweep.Done id := by
  cases result with
  | error e => exact .inl ⟨h, nofun⟩
  | ok reply =>
    cases reply with
    | removed removed =>
      cases removed with
      | false => exact .inl ⟨h, nofun⟩
      | true => exact .inr h
    | _ => exact .inl ⟨h, nofun⟩

/-- A step of a request. -/
theorem inv_act (h : Inv requests g w) {e : Eff} {r : e.Answer} (hallowed : (g i).Allowed e)
    (hserve : World.serve (requests i) i e w = (r, w'))
    (hcond : Undisturbed requests w (.act i e r)) :
    ∃ s, (g i).next e r = some s ∧ Inv requests (Function.update g i s) w' := by
  have hk := h.known i
  have hstay : Inv requests (Function.update g i (g i)) w := h.read hk rfl rfl rfl
  cases e with
  | ready =>
    obtain ⟨rfl, rfl⟩ := Prod.mk.inj hserve
    exact ⟨_, rfl, h.ready⟩
  | now =>
    obtain ⟨rfl, rfl⟩ := Prod.mk.inj hserve
    exact ⟨_, rfl, hstay⟩
  | feed_keys url =>
    cases url with
    | none =>
      obtain ⟨rfl, rfl⟩ := Prod.mk.inj hserve
      exact ⟨_, rfl, hstay⟩
    | some url =>
      obtain ⟨rfl, rfl⟩ := Prod.mk.inj hserve
      exact ⟨_, rfl, h.feed_keys url⟩
  | get_feeds url keys =>
    cases url with
    | none =>
      obtain ⟨rfl, rfl⟩ := Prod.mk.inj hserve
      refine ⟨_, rfl, h.read { hk with feeds := fun f hf => ?_ } rfl rfl rfl⟩
      obtain ⟨id, -, hget⟩ := mem_feed_rows.mp hf
      exact h.feed_filed hget
    | some url =>
      obtain ⟨rfl, rfl⟩ := Prod.mk.inj hserve
      exact ⟨_, rfl, h.get_feeds hallowed⟩
  | article_keys link =>
    cases link with
    | none =>
      obtain ⟨rfl, rfl⟩ := Prod.mk.inj hserve
      exact ⟨_, rfl, h.list_articles⟩
    | some link =>
      obtain ⟨rfl, rfl⟩ := Prod.mk.inj hserve
      exact ⟨_, rfl, h.article_keys hallowed.2⟩
  | get_articles link keys =>
    cases link with
    | none =>
      obtain ⟨rfl, rfl⟩ := Prod.mk.inj hserve
      exact ⟨_, rfl, h.read_articles hallowed⟩
    | some link =>
      obtain ⟨rfl, rfl⟩ := Prod.mk.inj hserve
      exact ⟨_, rfl, h.get_articles hallowed⟩
  | get_feed id =>
    obtain ⟨rfl, rfl⟩ := Prod.mk.inj hserve
    refine ⟨_, rfl, h.read { hk with feeds := fun f hf => ?_ } rfl rfl rfl⟩
    exact h.feed_filed (Option.mem_toList.mp hf)
  | get_article id =>
    obtain ⟨rfl, rfl⟩ := Prod.mk.inj hserve
    exact ⟨_, rfl, h.read { hk with article := fun a ha => h.article_filed ha } rfl rfl rfl⟩
  | db_incr counter =>
    cases counter with
    | next_feed_id =>
      obtain ⟨rfl, rfl⟩ := Prod.mk.inj hserve
      exact ⟨_, rfl, h.draw_feed hallowed⟩
    | next_article_id =>
      obtain ⟨rfl, rfl⟩ := Prod.mk.inj hserve
      exact ⟨_, rfl, h.draw_article hallowed⟩
  | put_feed f =>
    obtain ⟨rfl, rfl⟩ := Prod.mk.inj hserve
    exact ⟨_, rfl, inv_put_feed h hallowed hcond⟩
  | put_article a =>
    obtain ⟨rfl, rfl⟩ := Prod.mk.inj hserve
    exact ⟨_, rfl, inv_put_article h hallowed hcond⟩
  | delete_feed id =>
    obtain ⟨rfl, rfl⟩ := Prod.mk.inj hserve
    obtain ⟨hreq, hs, hrunning⟩ := hallowed
    exact ⟨_, rfl, h.delete_feed hreq hs hrunning⟩
  | delete_article id =>
    obtain ⟨rfl, rfl⟩ := Prod.mk.inj hserve
    obtain ⟨feed_id, ids, hs⟩ := hallowed
    exact ⟨_, rfl, h.delete_article hs⟩
  | http_request url timeout_ms =>
    obtain ⟨rfl, rfl⟩ := Prod.mk.inj hserve
    exact ⟨_, rfl, hstay⟩
  | publish event_type payload =>
    obtain ⟨rfl, rfl⟩ := Prod.mk.inj hserve
    exact ⟨_, rfl, hstay⟩
  | reply result =>
    obtain ⟨rfl, rfl⟩ := Prod.mk.inj hserve
    have hreply := allowed_reply hallowed
    refine ⟨_, rfl, h.reply ?_ ?_⟩
    · rcases hreply with ⟨hs, -⟩ | ⟨id, -, hs⟩
      · exact .inl hs
      · exact .inr ⟨id, hs⟩
    · intro hresult
      rcases hreply with ⟨-, hne⟩ | hdone
      · exact absurd hresult hne
      · exact hdone

/-! ## Whole runs -/

theorem inv_start : Inv requests (fun i => Local.start (requests i)) .empty where
  known i := by
    refine ⟨rfl, nofun, nofun, nofun, nofun, .inl rfl⟩
  feeds := by
    have hrows : feedRows .empty = fun _ => none := funext fun id => Std.ExtTreeMap.getElem?_empty
    rw [hrows]
    exact Shelved.start
  articles := by
    have hrows : articleRows .empty = fun _ => none := funext fun id => Std.ExtTreeMap.getElem?_empty
    rw [hrows]
    exact Shelved.start
  nonempty id a ha := by simp [World.empty] at ha
  swept := ⟨nofun, nofun, nofun, fun id a ha => by simp [World.empty] at ha⟩

theorem inv_turn (h : Inv requests g w) (l : Weather) : Inv requests g (w.turn l) where
  known := h.known
  feeds := h.feeds
  articles := h.articles
  nonempty := h.nonempty
  swept := ⟨h.swept.deleted, h.swept.removed, h.swept.listing, h.swept.covered⟩

/-- While no request is in progress no article waits for the removal of its feed. -/
theorem Inv.consistent (h : Inv requests g w) (hidle : w.history.running = []) : Consistent w where
  urls id id' f f' := h.feeds.distinct id id' f f'
  links id id' a a' := h.articles.distinct id id' a a'
  nonempty := h.nonempty
  feeds id a ha hnone := by
    obtain ⟨i, hi⟩ := h.swept.covered id a ha hnone
    have hk := h.known i
    rcases hk.sweep with hs | ⟨hrunning, -⟩
    · have hcovers : (g i).sweep.Covers a := hi
      rw [hs] at hcovers
      exact hcovers
    · have hmem := hk.running hrunning
      rw [hidle] at hmem
      cases hmem
  removed id hid := (h.swept.deleted id (h.swept.removed id hid)).1

/-- In an undisturbed run the store is consistent whenever no request is in progress. -/
theorem store_is_consistent (crates : Crates) (requests : Nat → RssRequest) {trace : List TaskLabel}
    {p : Tasks} (hr : Run (Where (fun p l => Undisturbed requests p.world l) (TaskStep requests))
      (.start crates requests) trace p) (hidle : p.world.history.running = []) :
    Consistent p.world := by
  have hinv := hr.invariant
    (I := PoolInv requestProtocol (fun _ _ _ => True) fun g _ w => Inv requests g w)
    ⟨_, inv_start, fun i => obeys_task (requests i)⟩ fun trace p l p' h hl =>
      PoolInv.step
        (fun g _ w i e r w' hI hallowed hw => by
          obtain ⟨s, hs, hI'⟩ := inv_act hI hallowed hw.1 hw.2
          exact ⟨s, hs, hI'⟩)
        (fun g _ w l w' hI hw => by
          obtain ⟨rfl, -⟩ := hw
          exact inv_turn hI l)
        h (hl.1.where _ hl.2)
  obtain ⟨g, hI, -⟩ := hinv
  exact hI.consistent hidle

/-! ## Two runs -/

/-- A page with one item. -/
def oneItem : Crates where
  base64_decode _ := .error ""
  from_utf8_lossy _ := ""
  read_from _ := .ok
    { title := "News", items := [{ title := none, link := some "https://a/1", pub_date := none }] }
  parse_from_rfc2822 _ := none
  to_lowercase s := s

def runMoves (requests : Nat → RssRequest) (cond : World → TaskLabel → Prop)
    [∀ w l, Decidable (cond w l)] (moves : List Move) : Option (List TaskLabel × Tasks) :=
  Transition.runOf (answerMove requests cond) (.start oneItem requests) moves

theorem run_runMoves {requests : Nat → RssRequest} {cond : World → TaskLabel → Prop}
    [∀ w l, Decidable (cond w l)] {moves : List Move} {res : List TaskLabel × Tasks}
    (h : runMoves requests cond moves = some res) :
    Run (Where (fun p l => cond p.world l) (TaskStep requests)) (.start oneItem requests) res.1 res.2 :=
  Transition.run_runOf (fun _ _ _ _ h => step_answerMove h) h

/-- Two requests that add a feed, and one that fetches it. -/
def twoAdds : Nat → RssRequest
  | 2 => .Fetch "1" 10000
  | _ => .Add "https://a"

/-- A page is there. -/
def answered : Move := .turn { clock := 0, fetched := .ok (.obj [("status", .int 200)]) }

/-- The feed is added, and fetched. -/
def oneByOne : List Move :=
  [answered] ++ List.replicate 6 (.act 0) ++ List.replicate 9 (.act 2)

theorem store_is_consistent_sample :
    ∃ p : Tasks, p.world.feeds.size = 1 ∧ p.world.articles.size = 1 ∧ Consistent p.world := by
  have hrun : ((runMoves twoAdds (Undisturbed twoAdds) oneByOne).map fun res =>
      (res.2.world.history.running, res.2.world.feeds.size, res.2.world.articles.size)) =
      some ([], 1, 1) := by decide
  obtain ⟨res, hres, hcounts⟩ := Option.map_eq_some_iff.mp hrun
  obtain ⟨hidle, hcounts⟩ := Prod.mk.inj hcounts
  obtain ⟨hfeeds, harticles⟩ := Prod.mk.inj hcounts
  exact ⟨res.2, hfeeds, harticles, store_is_consistent oneItem twoAdds (run_runMoves hres) hidle⟩

/-- Both requests list the feeds before either one stores its own. -/
def bothAtOnce : List Move :=
  [.act 0, .act 0, .act 1, .act 1] ++ List.replicate 4 (.act 0) ++ List.replicate 4 (.act 1)

/-- The feeds of one URL. -/
def sameUrl (w : World) : Bool :=
  w.feeds["1"]?.any fun f => w.feeds["2"]?.any fun f' => f.url = f'.url

theorem concurrent_adds_store_twice :
    ¬ ∀ (trace : List TaskLabel) (p : Tasks), Run (TaskStep twoAdds) (.start oneItem twoAdds) trace p →
      p.world.history.running = [] → Consistent p.world := by
  intro hall
  have hrun : ((runMoves twoAdds (fun _ _ => True) bothAtOnce).map fun res =>
      (res.2.world.history.running, sameUrl res.2.world)) = some ([], true) := by decide
  obtain ⟨res, hres, hboth⟩ := Option.map_eq_some_iff.mp hrun
  obtain ⟨hidle, hsame⟩ := Prod.mk.inj hboth
  have hconsistent := hall res.1 res.2 ((run_runMoves hres).mono fun _ _ _ hl => hl.1) hidle
  obtain ⟨f, hf, hany⟩ := (Option.any_eq_true _ _).mp hsame
  obtain ⟨f', hf', hurl⟩ := (Option.any_eq_true _ _).mp hany
  have hids := hconsistent.urls "1" "2" f f' hf hf' (by simpa using hurl)
  exact absurd hids (by decide)

end Rss
