import Mathlib.Data.List.Basic
import VynkorPlugins.Launcher.Catalogue

/-!
# Precedence of desktop entries

Which of the files for an id is listed and launched, through the cache and over any requests.
-/

namespace Launcher

/-! ## What should count -/

/-- What the first file of an id says: the one of the first directory with a file of this name. -/
def firstEntry (dirs : List Directory) (id : String) : Option (Except String DesktopEntry) :=
  dirs.findSome? fun d =>
    ((d.files.getD []).find? fun f => desktop_stem f.name = some id).map fun f => parse_desktop_file d.path f id

/-- An application that can be run. -/
structure Launchable (e : DesktopEntry) : Prop where
  type : e.entry_type = "Application"
  exec : e.exec ≠ none

def DesktopEntry.masked (e : DesktopEntry) : Bool := e.no_display || e.hidden

/-- The app is the one of the first file of its id, an application that can be run and is not hidden. -/
def Sound (dirs : List Directory) (a : Shown) : Prop :=
  ∃ e, firstEntry dirs a.id = some (.ok e) ∧ Launchable e ∧ e.masked = false ∧ a = (AppEntry.from_desktop e).shown

/-! ## What counts -/

instance (e : DesktopEntry) : Decidable (Launchable e) :=
  decidable_of_iff (e.entry_type = "Application" ∧ e.exec ≠ none) ⟨fun h => ⟨h.1, h.2⟩, fun h => ⟨h.1, h.2⟩⟩

/-- The app that a file offers. -/
def offer (dir : String) (f : File) : Option DesktopEntry :=
  match desktop_stem f.name with
  | none => none
  | some stem =>
    if is_waydroid stem then none
    else
      match parse_desktop_file dir f stem with
      | .error _ => none
      | .ok e => if Launchable e then some e else none

def offers (dirs : List Directory) : List DesktopEntry :=
  dirs.flatMap fun d => (d.files.getD []).filterMap (offer d.path)

/-- The first app that is offered for an id. -/
def firstOffer (dirs : List Directory) (id : String) : Option DesktopEntry := (offers dirs).find? fun e => e.id = id

/-- For each id that a file offers an app for, its first file does, and the app is not hidden; but where hidden
    ones are left out, the first app that is offered may be hidden. -/
def Kept (dirs : List Directory) (include_hidden : Bool) : Prop :=
  ∀ e, firstOffer dirs e.id = some e → (include_hidden = true ∨ e.masked = false) →
    ∃ first, firstEntry dirs e.id = some (.ok first) ∧ Launchable first ∧ first.masked = false

variable {dirs : List Directory} {e : DesktopEntry} {f : File} {s : Scan} {dir : String} {id : String}

theorem parse_id {content path : String} (h : parse_desktop_content content id path = .ok e) : e.id = id := by
  unfold parse_desktop_content at h
  dsimp only at h
  split_ifs at h
  rw [← Except.ok.inj h]

theorem parse_file_id (h : parse_desktop_file dir f id = .ok e) : e.id = id := by
  unfold parse_desktop_file at h
  split at h
  · cases h
  · exact parse_id h

theorem offer_eq_some :
    offer dir f = some e ↔ desktop_stem f.name = some e.id ∧ is_waydroid e.id = false ∧
      parse_desktop_file dir f e.id = .ok e ∧ Launchable e := by
  unfold offer
  constructor
  · intro h
    split at h
    · cases h
    · rename_i stem hstem
      split_ifs at h with hway
      split at h
      · cases h
      · rename_i e' hparse
        split_ifs at h with hlaunch
        obtain rfl := Option.some.inj h
        obtain rfl := parse_file_id hparse
        exact ⟨hstem, Bool.eq_false_of_not_eq_true hway, hparse, hlaunch⟩
  · rintro ⟨hstem, hway, hparse, hlaunch⟩
    rw [hstem]
    dsimp only
    rw [hway, if_neg Bool.false_ne_true, hparse]
    exact if_pos hlaunch

/-! ## Scanning keeps the first offers -/

/-- An offer is taken unless there is one for its id. -/
def Scan.take (s : Scan) (e : DesktopEntry) : Scan :=
  if e.id ∈ s.seen then s else ⟨s.entries ++ [e], e.id :: s.seen⟩

theorem scan_file (s : Scan) (dir : String) (f : File) :
    Scan.file true dir s f = (offer dir f).toList.foldl Scan.take s := by
  cases hstem : desktop_stem f.name with
  | none => simp [Scan.file, offer, hstem]
  | some stem =>
    by_cases hway : is_waydroid stem = true
    · simp only [Scan.file, offer, hstem, hway, if_true, Option.toList_none, List.foldl_nil]
    · have hway := Bool.eq_false_of_not_eq_true hway
      cases hparse : parse_desktop_file dir f stem with
      | error err => simp [Scan.file, offer, hstem, hway, hparse]
      | ok e =>
        have hid := parse_file_id hparse
        have hvisible : ¬ (true = false ∧ (e.no_display = true ∨ e.hidden = true)) := by simp
        simp only [Scan.file, offer, hstem, hway, hparse, if_neg Bool.false_ne_true, if_neg hvisible]
        by_cases hlaunch : Launchable e
        · have htype : ¬ e.entry_type ≠ "Application" := not_not.mpr hlaunch.type
          simp only [if_pos hlaunch, if_neg htype, if_neg hlaunch.exec, Option.toList_some, List.foldl_cons,
            List.foldl_nil, Scan.take, hid]
        · rw [if_neg hlaunch]
          by_cases htype : e.entry_type = "Application"
          · have hexec : e.exec = none := by
              by_contra hexec
              exact hlaunch ⟨htype, hexec⟩
            simp [htype, hexec]
          · simp [htype]

theorem scan_dirs (s : Scan) (dirs : List Directory) :
    dirs.foldl (Scan.dir true) s = (offers dirs).foldl Scan.take s := by
  induction dirs generalizing s with
  | nil => rfl
  | cons d dirs ih =>
    have hdir : Scan.dir true s d = ((d.files.getD []).filterMap (offer d.path)).foldl Scan.take s := by
      unfold Scan.dir
      cases d.files with
      | none => rfl
      | some files =>
        show files.foldl (Scan.file true d.path) s = (files.filterMap (offer d.path)).foldl Scan.take s
        induction files generalizing s with
        | nil => rfl
        | cons f files ihf =>
          rw [List.foldl_cons, scan_file, ihf]
          cases hoffer : offer d.path f <;> simp [hoffer]
    have hoffers : offers (d :: dirs) = (d.files.getD []).filterMap (offer d.path) ++ offers dirs := List.flatMap_cons
    rw [List.foldl_cons, hdir, ih, hoffers, List.foldl_append]

/-- What is seen are the ids of the entries. -/
def Scan.Inv (s : Scan) : Prop := ∀ id, id ∈ s.seen ↔ ∃ e ∈ s.entries, e.id = id

/-- The entries at the end are those before, and the first offers for other ids. -/
theorem mem_taken (es : List DesktopEntry) :
    e ∈ (es.foldl Scan.take s).entries ↔ e ∈ s.entries ∨ (e.id ∉ s.seen ∧ es.find? (fun x => x.id = e.id) = some e) := by
  induction es generalizing s with
  | nil => simp
  | cons x es ih =>
    rw [List.foldl_cons, ih]
    unfold Scan.take
    by_cases hx : x.id = e.id
    · rw [List.find?_cons_of_pos (by simpa using hx), hx]
      split_ifs with hseen
      · simp [hseen]
      · simp [hseen, eq_comm]
    · have hne : e ≠ x := fun h => hx (congrArg DesktopEntry.id h.symm)
      have hid : e.id ≠ x.id := fun h => hx h.symm
      rw [List.find?_cons_of_neg (by simpa using hx)]
      split_ifs with hseen
      · rfl
      · simp [hne, hid]

/-- The scan finds the first offer for each id. -/
theorem mem_scan : e ∈ scan_desktop_dirs dirs true ↔ firstOffer dirs e.id = some e := by
  unfold scan_desktop_dirs firstOffer
  rw [List.mem_mergeSort, scan_dirs, mem_taken]
  simp

/-- The offers of files with other stems are for other ids. -/
theorem offer_id (h : offer dir f = some e) : desktop_stem f.name = some e.id :=
  (offer_eq_some.mp h).1

theorem find_offers_none {files : List File} (h : files.find? (fun f => desktop_stem f.name = some id) = none) :
    (files.filterMap (offer dir)).find? (fun e => e.id = id) = none := by
  rw [List.find?_eq_none] at h ⊢
  intro e he
  obtain ⟨f, hf, hoffer⟩ := List.mem_filterMap.mp he
  have hstem := h f hf
  rw [offer_id hoffer] at hstem
  simpa using hstem

theorem find_offers {files : List File} (h : files.find? (fun f => desktop_stem f.name = some id) = some f)
    (hoffer : offer dir f = some e) : (files.filterMap (offer dir)).find? (fun e => e.id = id) = some e := by
  obtain ⟨hstem, before, after, rfl, hbefore⟩ := List.find?_eq_some_iff_append.mp h
  have hstem : desktop_stem f.name = some id := by simpa using hstem
  have hid : e.id = id := Option.some.inj ((offer_id hoffer).symm.trans hstem)
  have hnone : (before.filterMap (offer dir)).find? (fun e => e.id = id) = none := by
    refine find_offers_none (List.find?_eq_none.mpr ?_)
    intro f' hf'
    simpa using hbefore f' hf'
  rw [List.filterMap_append, List.find?_append, hnone, List.filterMap_cons_some hoffer,
    List.find?_cons_of_pos (by simpa using hid)]
  rfl

/-- A first file that offers an app is the first offer. -/
theorem firstOffer_of_firstEntry (hentry : firstEntry dirs id = some (.ok e)) (hlaunch : Launchable e)
    (hway : is_waydroid id = false) : firstOffer dirs id = some e := by
  induction dirs with
  | nil => cases hentry
  | cons d dirs ih =>
    have hoffers : offers (d :: dirs) = (d.files.getD []).filterMap (offer d.path) ++ offers dirs := List.flatMap_cons
    unfold firstOffer
    rw [hoffers, List.find?_append]
    unfold firstEntry at hentry
    rw [List.findSome?_cons] at hentry
    cases hfind : (d.files.getD []).find? fun f => desktop_stem f.name = some id with
    | none =>
      rw [hfind] at hentry
      rw [find_offers_none hfind]
      exact ih hentry
    | some f =>
      rw [hfind] at hentry
      have hparse : parse_desktop_file d.path f id = .ok e := Option.some.inj hentry
      have hid := parse_file_id hparse
      have hstem : desktop_stem f.name = some id := by simpa using List.find?_some hfind
      have hoffer : offer d.path f = some e := by
        rw [offer_eq_some, hid]
        exact ⟨hstem, hway, hparse, hlaunch⟩
      rw [find_offers hfind hoffer]
      rfl

/-- An offer is the app of one of the files of its id. -/
theorem not_waydroid (h : firstOffer dirs id = some e) : is_waydroid id = false := by
  have hid : e.id = id := by simpa using List.find?_some h
  obtain ⟨d, -, hmem⟩ := List.mem_flatMap.mp (List.mem_of_find?_eq_some h)
  obtain ⟨f, -, hoffer⟩ := List.mem_filterMap.mp hmem
  rw [← hid]
  exact (offer_eq_some.mp hoffer).2.1

/-! ## The catalogue -/

/-- The cache holds what scans of the directories give, and games of Steam, which are no desktop entries. -/
structure ScanCache.Fresh (dirs : List Directory) (cache : ScanCache) : Prop where
  desktop : ∀ c, cache.desktop = some c → c.entries = (scan_desktop_dirs dirs true).map AppEntry.from_desktop
  steam : ∀ c, cache.steam = some c → ∀ a ∈ c.entries, a.provider = "steam"

variable {cfg : Config} {host : Host} {disk : Disk} {cache : ScanCache} {now : Nat} {provider : String}
  {include_hidden : Bool} {a : AppEntry}

theorem refreshed_cases (cached : Option CachedEntries) (ttl_ms now : Nat) (entries : List AppEntry) :
    (CachedEntries.refreshed cached ttl_ms now entries).entries = entries ∨
      cached = some (CachedEntries.refreshed cached ttl_ms now entries) := by
  unfold CachedEntries.refreshed
  cases cached with
  | none => exact .inl rfl
  | some c =>
    dsimp only
    split_ifs
    · exact .inl rfl
    · exact .inr rfl

/-- The desktop entries are those of a scan, whatever is cached. -/
theorem refreshed_desktop (h : cache.Fresh disk.dirs) :
    (CachedEntries.refreshed cache.desktop cfg.cache_ttl_ms now
      ((scan_desktop_dirs disk.dirs true).map AppEntry.from_desktop)).entries =
        (scan_desktop_dirs disk.dirs true).map AppEntry.from_desktop := by
  rcases refreshed_cases cache.desktop cfg.cache_ttl_ms now
    ((scan_desktop_dirs disk.dirs true).map AppEntry.from_desktop) with hnew | hold
  · exact hnew
  · exact h.desktop _ hold

theorem refreshed_steam (h : cache.Fresh disk.dirs) :
    ∀ a ∈ (CachedEntries.refreshed cache.steam cfg.cache_ttl_ms now (disk.steam.map AppEntry.from_steam)).entries,
      a.provider = "steam" := by
  intro a ha
  rcases refreshed_cases cache.steam cfg.cache_ttl_ms now (disk.steam.map AppEntry.from_steam) with hnew | hold
  · rw [hnew] at ha
    obtain ⟨game, -, rfl⟩ := List.mem_map.mp ha
    rfl
  · exact h.steam _ hold a ha

/-- The providers that have desktop entries. -/
abbrev Desktop (provider : String) : Prop := provider = "auto" ∨ provider = "desktop"

/-- The apps of a provider: the desktop entries and then the games. -/
theorem apps_eq (cfg : Config) (now : Nat) (h : cache.Fresh disk.dirs) (provider : String) (include_hidden : Bool) :
    ∃ games : List AppEntry, (∀ a ∈ games, a.provider = "steam") ∧
      (cached_apps cfg disk cache now provider include_hidden).1 =
        (if Desktop provider then
          ((scan_desktop_dirs disk.dirs true).map AppEntry.from_desktop).filter fun a => include_hidden || !a.hidden
          else []) ++ games := by
  unfold cached_apps
  refine ⟨_, ?_, congrArg (· ++ _) ?_⟩
  · split_ifs
    · exact refreshed_steam h
    · intro a ha
      cases ha
  · rw [refreshed_desktop h]
    by_cases hprovider : Desktop provider
    · rw [if_pos hprovider, if_pos hprovider]
    · rw [if_neg hprovider, if_neg hprovider]

theorem cache_fresh (disk : Disk) (h : cache.Fresh disk.dirs) (provider : String) (include_hidden : Bool) :
    (cached_apps cfg disk cache now provider include_hidden).2.Fresh disk.dirs := by
  unfold cached_apps
  constructor
  · intro c hc
    dsimp only at hc
    split_ifs at hc
    · rw [← Option.some.inj hc]
      exact refreshed_desktop h
    · exact h.desktop c hc
  · intro c hc
    dsimp only at hc
    split_ifs at hc
    · rw [← Option.some.inj hc]
      exact refreshed_steam h
    · exact h.steam c hc

/-- The desktop entries among the apps of a provider. -/
theorem mem_apps (disk : Disk) (h : cache.Fresh disk.dirs) (hdesktop : a.provider = "desktop") :
    a ∈ (cached_apps cfg disk cache now provider include_hidden).1 ↔
      Desktop provider ∧ (include_hidden = true ∨ a.hidden = false) ∧
        ∃ e, firstOffer disk.dirs e.id = some e ∧ AppEntry.from_desktop e = a := by
  obtain ⟨games, hgames, happs⟩ := apps_eq cfg now h provider include_hidden
  have hno : a ∉ games := by
    intro ha
    have hsteam := hgames a ha
    rw [hdesktop] at hsteam
    simp at hsteam
  rw [happs, List.mem_append, or_iff_left hno]
  split_ifs with hprovider
  · simp only [List.mem_filter, List.mem_map, mem_scan, Bool.or_eq_true, Bool.not_eq_true', hprovider, true_and]
    exact and_comm
  · simp [hprovider]

/-! ## Listing -/

theorem mem_picked {query : Option String} {limit : Nat} {apps : List AppEntry}
    (h : a ∈ picked host query limit apps) : a ∈ apps := by
  unfold picked at h
  have hmem := List.mem_of_mem_take h
  cases query with
  | none => exact (List.mem_mergeSort.mp hmem)
  | some q =>
    obtain ⟨⟨score, a'⟩, hpair, rfl⟩ := List.mem_map.mp hmem
    obtain ⟨a'', ha, hscore⟩ := List.mem_filterMap.mp (List.mem_mergeSort.mp hpair)
    obtain ⟨s, -, heq⟩ := Option.map_eq_some_iff.mp hscore
    rw [← (Prod.mk.inj heq).2]
    exact ha

/-- The shown app of an entry is sound where the first file of its id offers an app that is not hidden. -/
theorem sound_iff (h : firstOffer dirs e.id = some e) :
    Sound dirs (AppEntry.from_desktop e).shown ↔
      ∃ first, firstEntry dirs e.id = some (.ok first) ∧ Launchable first ∧ first.masked = false := by
  constructor
  · rintro ⟨first, hentry, hlaunch, hvisible, -⟩
    exact ⟨first, hentry, hlaunch, hvisible⟩
  · rintro ⟨first, hentry, hlaunch, hvisible⟩
    have hfirst := firstOffer_of_firstEntry hentry hlaunch (not_waydroid h)
    obtain rfl : e = first := Option.some.inj (h.symm.trans hfirst)
    exact ⟨e, hentry, hlaunch, hvisible, rfl⟩

/-- All desktop entries of a catalogue are sound exactly where the directories are kept. -/
theorem catalogue_iff (disk : Disk) (h : cache.Fresh disk.dirs) (hprovider : Desktop provider) :
    (∀ a ∈ (cached_apps cfg disk cache now provider include_hidden).1, a.provider = "desktop" →
      Sound disk.dirs a.shown) ↔ Kept disk.dirs include_hidden := by
  constructor
  · intro hsound e hfirst hasked
    refine (sound_iff hfirst).mp (hsound _ ((mem_apps disk h rfl).mpr ⟨hprovider, hasked, e, hfirst, rfl⟩) rfl)
  · intro hkept a ha hdesktop
    obtain ⟨-, hasked, e, hfirst, rfl⟩ := (mem_apps disk h hdesktop).mp ha
    exact (sound_iff hfirst).mpr (hkept e hfirst hasked)

/-! ## Launching -/

/-- The app with the very id is found, whatever else is similar. -/
theorem find_first (h : cache.Fresh disk.dirs) (hprovider : Desktop provider)
    (hfirst : firstOffer disk.dirs id = some e) :
    find_app host (cached_apps cfg disk cache now provider true).1 id = some (AppEntry.from_desktop e) := by
  have hid : e.id = id := by simpa using List.find?_some hfirst
  obtain ⟨games, -, happs⟩ := apps_eq cfg now h provider true
  have hfound : (((scan_desktop_dirs disk.dirs true).map AppEntry.from_desktop).filter fun a => true || !a.hidden).find?
      (fun a => a.id = id) = some (AppEntry.from_desktop e) := by
    have hmem : AppEntry.from_desktop e ∈ (scan_desktop_dirs disk.dirs true).map AppEntry.from_desktop :=
      List.mem_map_of_mem (mem_scan.mpr (by rw [hid]; exact hfirst))
    simp only [Bool.true_or, List.filter_true]
    cases hfind : ((scan_desktop_dirs disk.dirs true).map AppEntry.from_desktop).find? fun a => a.id = id with
    | none =>
      have hnot := List.find?_eq_none.mp hfind _ hmem
      exact (hnot (decide_eq_true hid)).elim
    | some a =>
      obtain ⟨e', he', rfl⟩ := List.mem_map.mp (List.mem_of_find?_eq_some hfind)
      have hdecide := List.find?_some hfind
      have hid' : e'.id = id := of_decide_eq_true hdecide
      have hfirst' := mem_scan.mp he'
      rw [hid'] at hfirst'
      rw [Option.some.inj (hfirst'.symm.trans hfirst)]
  unfold find_app
  rw [happs, if_pos hprovider, List.find?_append, hfound]
  rfl

/-- Launching by the very id launches the first offer. -/
theorem launch_first (disk : Disk) (h : cache.Fresh disk.dirs) (hprovider : Desktop provider)
    (hfirst : firstOffer disk.dirs id = some e) {spawn : Command → Except String Unit}
    {params : Except String LaunchRequest} {extra_args : List String} {dry_run : Bool}
    (hparams : params.bind (parse_launch host) = .ok (id, provider, extra_args, dry_run)) :
    (handle_launch host cfg disk cache now spawn params).1 =
      launch_app host cfg spawn (AppEntry.from_desktop e) extra_args dry_run := by
  have hterminal : (terminals.lookup provider).isSome = false := by
    rcases hprovider with rfl | rfl <;> rfl
  unfold handle_launch
  rw [hparams]
  dsimp only
  rw [find_first h hprovider hfirst, hterminal]
  rfl

/-! ## Runs -/

inductive Request where
  | list (params : Except String LaunchListRequest)
  | launch (spawn_detached : Command → Except String Unit) (params : Except String LaunchRequest)

/-- A request, when it comes, and the games that are found then. -/
structure Event where
  now : Nat
  steam : List SteamEntry
  request : Request

section

variable (host : Host) (cfg : Config) (dirs : List Directory)

def Event.listed (e : Event) (cache : ScanCache) (params : Except String LaunchListRequest) :
    Except LauncherError Listed × ScanCache :=
  handle_list host cfg ⟨dirs, e.steam⟩ cache e.now params

def Event.launched (e : Event) (cache : ScanCache) (spawn_detached : Command → Except String Unit)
    (params : Except String LaunchRequest) : Outcome × ScanCache :=
  handle_launch host cfg ⟨dirs, e.steam⟩ cache e.now spawn_detached params

/-- The cache after some requests. -/
def cacheAfter (events : List Event) : ScanCache :=
  events.foldl
    (fun cache e =>
      match e.request with
      | .list params => (e.listed host cfg dirs cache params).2
      | .launch spawn_detached params => (e.launched host cfg dirs cache spawn_detached params).2)
    {}

/-- After some requests one for a list is answered with the app. -/
def Offers (before : List Event) (e : Event) (provider : String) (a : Shown) : Prop :=
  ∃ params query limit include_hidden listed, e.request = .list params ∧
    params.bind (parse_launch_list host) = .ok (provider, query, limit, include_hidden) ∧
      (e.listed host cfg dirs (cacheAfter host cfg dirs before) params).1 = .ok listed ∧ a ∈ listed.apps

/-- Listed desktop entries are sound. An app that was listed is launched as its first file says, if it is
    asked for by its id and with the provider of the list or its own. -/
structure Respected (before : List Event) (e : Event) : Prop where
  listed : ∀ provider a, Offers host cfg dirs before e provider a → a.provider = "desktop" → Sound dirs a
  launched : ∀ earlier l between provider a, before = earlier ++ l :: between →
    Offers host cfg dirs earlier l provider a → a.provider = "desktop" →
      ∀ spawn_detached req app_id prov extra_args dry_run, e.request = .launch spawn_detached (.ok req) →
        req.app_id = a.id → parse_launch host req = .ok (app_id, prov, extra_args, dry_run) →
          prov = provider ∨ prov = "desktop" →
            ∃ first, firstEntry dirs a.id = some (.ok first) ∧
              (e.launched host cfg dirs (cacheAfter host cfg dirs before) spawn_detached (.ok req)).1 =
                launch_app host cfg spawn_detached (AppEntry.from_desktop first) extra_args dry_run

/-- Directories are kept where they are listed, and an app is asked for by an id without white space around
    it. -/
def Careful (e : Event) : Prop :=
  match e.request with
  | .list params => ∀ provider query limit include_hidden,
      params.bind (parse_launch_list host) = .ok (provider, query, limit, include_hidden) → Desktop provider →
        Kept dirs include_hidden
  | .launch _ params => ∀ req, params = .ok req → Rust.trim req.app_id = req.app_id

end

variable {before : List Event} {event : Event}

theorem cacheAfter_fresh (events : List Event) : (cacheAfter host cfg dirs events).Fresh dirs := by
  induction events using List.reverseRecOn with
  | nil => exact ⟨nofun, nofun⟩
  | append_singleton events e ih =>
    have hstep : cacheAfter host cfg dirs (events ++ [e]) =
        match e.request with
        | .list params => (e.listed host cfg dirs (cacheAfter host cfg dirs events) params).2
        | .launch spawn_detached params =>
          (e.launched host cfg dirs (cacheAfter host cfg dirs events) spawn_detached params).2 := by
      simp only [cacheAfter, List.foldl_append, List.foldl_cons, List.foldl_nil]
    rw [hstep]
    cases e.request with
    | list params =>
      show (handle_list host cfg ⟨dirs, e.steam⟩ _ e.now params).2.Fresh dirs
      unfold handle_list
      split
      · exact ih
      · exact cache_fresh ⟨dirs, e.steam⟩ ih _ _
    | launch spawn params =>
      show (handle_launch host cfg ⟨dirs, e.steam⟩ _ e.now spawn params).2.Fresh dirs
      unfold handle_launch
      split
      · exact ih
      · dsimp only
        split
        · exact cache_fresh ⟨dirs, e.steam⟩ ih _ _
        · exact cache_fresh ⟨dirs, e.steam⟩ ih _ _

theorem parse_launch_id {req : LaunchRequest} {app_id prov : String} {extra_args : List String} {dry_run : Bool}
    (h : parse_launch host req = .ok (app_id, prov, extra_args, dry_run)) : app_id = Rust.trim req.app_id := by
  unfold parse_launch at h
  obtain ⟨_, -, h⟩ := Rust.bind_eq_ok.mp h
  obtain ⟨_, -, h⟩ := Rust.bind_eq_ok.mp h
  obtain ⟨_, -, h⟩ := Rust.bind_eq_ok.mp h
  obtain ⟨_, -, h⟩ := Rust.bind_eq_ok.mp h
  obtain ⟨_, -, h⟩ := Rust.bind_eq_ok.mp h
  exact (Prod.mk.inj (Except.ok.inj h)).1.symm

/-- A desktop entry of a list is a first offer, and asked for by a provider that has any. -/
theorem offers_cases {provider : String} {a : Shown} (h : Offers host cfg dirs before event provider a)
    (hdesktop : a.provider = "desktop") :
    ∃ params query limit include_hidden e, event.request = .list params ∧
      params.bind (parse_launch_list host) = .ok (provider, query, limit, include_hidden) ∧ Desktop provider ∧
        (include_hidden = true ∨ e.masked = false) ∧ firstOffer dirs e.id = some e ∧
          a = (AppEntry.from_desktop e).shown := by
  obtain ⟨params, query, limit, include_hidden, listed, hrequest, hparams, hlisted, hmem⟩ := h
  have hfresh := @cacheAfter_fresh dirs cfg host before
  unfold Event.listed handle_list at hlisted
  rw [hparams] at hlisted
  dsimp only at hlisted
  rw [← Except.ok.inj hlisted] at hmem
  obtain ⟨app, happ, rfl⟩ := List.mem_map.mp hmem
  obtain ⟨hprovider, hasked, e, hfirst, rfl⟩ :=
    (mem_apps ⟨dirs, event.steam⟩ hfresh hdesktop).mp (mem_picked happ)
  exact ⟨params, query, limit, include_hidden, e, hrequest, hparams, hprovider, hasked, hfirst, rfl⟩

theorem offers_sound {provider : String} {a : Shown} (h : Offers host cfg dirs before event provider a)
    (hdesktop : a.provider = "desktop") (hcareful : Careful host dirs event) :
    Desktop provider ∧ ∃ e, firstOffer dirs e.id = some e ∧ firstEntry dirs e.id = some (.ok e) ∧ a.id = e.id ∧
      Sound dirs a := by
  obtain ⟨params, query, limit, include_hidden, e, hrequest, hparams, hprovider, hasked, hfirst, rfl⟩ :=
    offers_cases h hdesktop
  have hkept : Kept dirs include_hidden := by
    unfold Careful at hcareful
    rw [hrequest] at hcareful
    exact hcareful provider query limit include_hidden hparams hprovider
  obtain ⟨first, hentry, hlaunch, hvisible⟩ := hkept e hfirst hasked
  have hsame := firstOffer_of_firstEntry hentry hlaunch (not_waydroid hfirst)
  obtain rfl : e = first := Option.some.inj (hfirst.symm.trans hsame)
  exact ⟨hprovider, e, hfirst, hentry, rfl, e, hentry, hlaunch, hvisible, rfl⟩

/-- One request after careful ones. -/
theorem respected_step (hbefore : ∀ e ∈ before, Careful host dirs e) (hevent : Careful host dirs event) :
    Respected host cfg dirs before event where
  listed provider a h hdesktop := by
    obtain ⟨-, e, -, -, -, hsound⟩ := offers_sound h hdesktop hevent
    exact hsound
  launched := by
    intro earlier l between provider a hsplit hoffers hdesktop spawn req app_id prov extra_args dry_run hrequest hid
      hparse hprov
    have hl : Careful host dirs l := hbefore l (by rw [hsplit]; simp)
    obtain ⟨hprovider, e, hfirst, hentry, haid, -⟩ := offers_sound hoffers hdesktop hl
    have hdesk : Desktop prov := by
      rcases hprov with rfl | rfl
      · exact hprovider
      · exact .inr rfl
    have htrim : Rust.trim req.app_id = req.app_id := by
      unfold Careful at hevent
      rw [hrequest] at hevent
      exact hevent req rfl
    have happ : app_id = e.id := by
      rw [parse_launch_id hparse, htrim, hid, haid]
    subst happ
    refine ⟨e, by rw [haid]; exact hentry, ?_⟩
    exact launch_first ⟨dirs, event.steam⟩ (cacheAfter_fresh before) hdesk hfirst hparse

/-- A directory of the user and one of the system, both with a file for `app`. -/
def twoDirs (user system : String) : List Directory :=
  [⟨"/home/.local/share/applications", some [⟨"app.desktop", .ok user⟩]⟩,
    ⟨"/usr/share/applications", some [⟨"app.desktop", .ok system⟩]⟩]

def plainHost : Host where
  binary_in_path _ := false
  tmux_has_session _ := false
  to_lowercase := fun s => s

def plainConfig : Config where
  allowed_ids := none
  steam_binary := "steam"
  desktop_launcher := .exec
  cache_ttl_ms := 60000
  terminal := .none
  tmux_session := "vynkor"

def listAll : Event where
  now := 0
  steam := []
  request := .list (.ok {})

/-- What a file for `app` says. -/
def appEntry (dir : String) (exec : Option String) : DesktopEntry where
  id := "app"
  name := "app"
  exec := exec
  path := dir ++ "/app.desktop"
  no_display := false
  hidden := false
  entry_type := "Application"
  terminal := false
  working_dir := none

end Launcher
