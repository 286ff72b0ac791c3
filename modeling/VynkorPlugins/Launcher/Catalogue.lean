import VynkorPlugins.Launcher.Desktop
import VynkorPlugins.Launcher.Steam

/-!
# The catalogue of apps

Scanning desktop directories (`desktop.rs`), the cache of the scans with listing and launching (`lib.rs`,
`request.rs`), and the commands that launch an app (`providers.rs`).
-/

namespace Launcher

/-! ## Desktop files -/

structure DesktopEntry where
  id : String
  name : String
  exec : Option String
  path : String
  no_display : Bool
  hidden : Bool
  entry_type : String
  terminal : Bool
  working_dir : Option String
deriving DecidableEq

/-- A file of a directory, and what reading it as a text gives. -/
structure File where
  name : String
  content : Except String String

/-- A directory with its files, where it is one and can be read. -/
structure Directory where
  path : String
  files : Option (List File)

/-- The members of a `[Desktop Entry]` section. -/
structure Section where
  in_desktop : Bool := false
  has_desktop_section : Bool := false
  map : List (String × String) := []

namespace Section

/-- The first value of a key stays. -/
def insert (s : Section) (k v : String) : Section :=
  if (s.map.lookup k).isSome then s else { s with map := s.map ++ [(k, v)] }

def step (s : Section) (line : List Char) : Section :=
  let line := Rust.trim (String.ofList line)
  if line = "" ∨ line.toList.head? = some '#' then s
  else if line.toList.head? = some '[' ∧ line.toList.getLast? = some ']' then
    if line = "[Desktop Entry]" then { s with in_desktop := true, has_desktop_section := true }
    else { s with in_desktop := false }
  else if s.in_desktop = false then s
  else
    match line.toList.span (· ≠ '=') with
    | (k, _ :: v) => s.insert (Rust.trim (String.ofList k)) (Rust.trim (String.ofList v))
    | (_, []) => s

/-- `true`, in letters of any case. -/
def flag (s : Section) (k : String) : Bool :=
  match s.map.lookup k with
  | some v => v.toList.map Char.toLower = "true".toList
  | none => false

end Section

def parse_desktop_content (content id path : String) : Except String DesktopEntry :=
  let s := (Rust.lines content.toList).foldl Section.step {}
  if s.has_desktop_section = false then .error "missing [Desktop Entry]"
  else .ok {
    id := id
    name := (s.map.lookup "Name").getD id
    exec := s.map.lookup "Exec"
    path := path
    no_display := s.flag "NoDisplay"
    hidden := s.flag "Hidden"
    entry_type := (s.map.lookup "Type").getD "Application"
    terminal := s.flag "Terminal"
    working_dir := (s.map.lookup "Path").filter fun dir => Rust.trim dir ≠ "" }

/-- The stem of a file with the extension `desktop`. -/
def desktop_stem (name : String) : Option String :=
  match (".desktop".toList.reverse).isPrefixOf? name.toList.reverse with
  | none | some [] => none
  | some stem => some (String.ofList stem.reverse)

def parse_desktop_file (dir : String) (file : File) (stem : String) : Except String DesktopEntry :=
  match file.content with
  | .error e => .error ("read failed: " ++ e)
  | .ok content => parse_desktop_content content stem (dir ++ "/" ++ file.name)

/-! ## Scanning -/

/-- An Android app of Waydroid, which would shadow the real one. -/
def is_waydroid (stem : String) : Bool := "waydroid.".toList.isPrefixOf stem.toList

structure Scan where
  entries : List DesktopEntry := []
  seen : List String := []

namespace Scan

def file (include_hidden : Bool) (dir : String) (s : Scan) (file : File) : Scan :=
  match desktop_stem file.name with
  | none => s
  | some stem =>
    if is_waydroid stem then s
    else if stem ∈ s.seen then s
    else
      match parse_desktop_file dir file stem with
      | .error _ => s
      | .ok e =>
        if include_hidden = false ∧ (e.no_display ∨ e.hidden) then s
        else if e.entry_type ≠ "Application" then s
        else if e.exec = none then s
        else { entries := s.entries ++ [e], seen := stem :: s.seen }

def dir (include_hidden : Bool) (s : Scan) (d : Directory) : Scan :=
  match d.files with
  | none => s
  | some files => files.foldl (file include_hidden d.path) s

end Scan

def scan_desktop_dirs (dirs : List Directory) (include_hidden : Bool) : List DesktopEntry :=
  (dirs.foldl (Scan.dir include_hidden) {}).entries.mergeSort fun a b => a.id ≤ b.id

/-! ## Apps -/

structure AppEntry where
  id : String
  name : String
  provider : String
  exec : Option String
  path : String
  hidden : Bool
  terminal : Bool
  working_dir : Option String
deriving DecidableEq

namespace AppEntry

def from_desktop (e : DesktopEntry) : AppEntry where
  id := e.id
  name := e.name
  provider := "desktop"
  exec := e.exec
  path := e.path
  hidden := e.no_display || e.hidden
  terminal := e.terminal
  working_dir := e.working_dir

def from_steam (e : SteamEntry) : AppEntry where
  id := String.ofList e.appid
  name := String.ofList e.name
  provider := "steam"
  exec := none
  path := e.path
  hidden := false
  terminal := false
  working_dir := none

end AppEntry

/-! ## Commands -/

inductive DesktopLauncher where
  | auto
  | gtkLaunch
  | gio
  | xdgOpen
  | exec
deriving DecidableEq

inductive TerminalKind where
  | auto
  | none
  | tmux
  | kitty
  | alacritty
  | ghostty
deriving DecidableEq

structure Config where
  allowed_ids : Option (List String)
  steam_binary : String
  desktop_launcher : DesktopLauncher
  cache_ttl_ms : Nat
  terminal : TerminalKind
  tmux_session : String

/-- What the launcher asks of its host: the programs and tmux sessions it has, and its Unicode tables. -/
structure Host where
  binary_in_path : String → Bool
  tmux_has_session : String → Bool
  to_lowercase : String → String

/-- A program and its arguments. -/
abbrev Command := String × List String

def Host.detect_auto (host : Host) : TerminalKind :=
  if host.binary_in_path "tmux" then .tmux
  else if host.binary_in_path "ghostty" then .ghostty
  else if host.binary_in_path "kitty" then .kitty
  else if host.binary_in_path "alacritty" then .alacritty
  else .none

def Host.effective (host : Host) (kind : TerminalKind) : TerminalKind :=
  if kind = .auto then host.detect_auto else kind

/-- A terminal that takes its working directory by a flag, and the command behind another one. -/
def Host.wrapped (host : Host) (bin flag separator : String) (cmd : Command) (working_dir : Option String) :
    Except String Command :=
  if host.binary_in_path bin = false then
    .error ("ERR_LAUNCH_PROVIDER_MISSING: binary '" ++ bin ++ "' not found on PATH")
  else
    let dir := match working_dir with
      | some dir => [flag, dir]
      | none => []
    .ok (bin, dir ++ [separator] ++ cmd.1 :: cmd.2)

def wrap_with_terminal (host : Host) (cfg : Config) (terminal : TerminalKind) (cmd : Command)
    (window_name : String) (working_dir : Option String) : Except String Command :=
  match host.effective terminal with
  | .auto | .none => .ok cmd
  | .tmux =>
    if host.binary_in_path "tmux" = false then
      .error "ERR_LAUNCH_PROVIDER_MISSING: binary 'tmux' not found on PATH"
    else
      let session := if host.tmux_has_session cfg.tmux_session then
          ["new-window", "-d", "-t", cfg.tmux_session, "-n", window_name]
        else ["new-session", "-d", "-s", cfg.tmux_session, "-n", window_name]
      let dir := match working_dir with
        | some dir => ["-c", dir]
        | none => []
      .ok ("tmux", session ++ dir ++ ["--"] ++ cmd.1 :: cmd.2)
  | .kitty => host.wrapped "kitty" "--directory" "--" cmd working_dir
  | .alacritty => host.wrapped "alacritty" "--working-directory" "-e" cmd working_dir
  | .ghostty => host.wrapped "ghostty" "--working-directory" "-e" cmd working_dir

/-- `exec_argv` on strings. -/
def execArgv (exec : String) : List String := (exec_argv exec.toList).map String.ofList

def fallback_exec (app : AppEntry) (extra_args : List String) : Except String Command :=
  match app.exec with
  | none => .error ("ERR_LAUNCH_NOT_SUPPORTED: desktop entry '" ++ app.id ++ "' has no Exec")
  | some exec =>
    match execArgv exec with
    | [] => .error ("ERR_LAUNCH_SPAWN_FAILED: Exec for '" ++ app.id ++ "' produced empty argv")
    | bin :: argv => .ok (bin, argv ++ extra_args)

def desktop_command (host : Host) (cfg : Config) (app : AppEntry) (extra_args : List String) :
    Except String Command :=
  let gtk : Command := ("gtk-launch", (app.id ++ ".desktop") :: extra_args)
  let gio : Command := ("gio", "launch" :: app.path :: extra_args)
  let usable (bin : String) : Bool := host.binary_in_path bin && !app.terminal
  match cfg.desktop_launcher with
  | .gtkLaunch => if usable "gtk-launch" then .ok gtk else fallback_exec app extra_args
  | .gio => if usable "gio" then .ok gio else fallback_exec app extra_args
  | .xdgOpen => if usable "xdg-open" then .ok ("xdg-open", app.path :: extra_args) else fallback_exec app extra_args
  | .exec => fallback_exec app extra_args
  | .auto =>
    if usable "gtk-launch" then .ok gtk
    else if usable "gio" then .ok gio
    else fallback_exec app extra_args

def terminals : List (String × TerminalKind) :=
  [("tmux", .tmux), ("kitty", .kitty), ("alacritty", .alacritty), ("ghostty", .ghostty)]

def resolve_launch_command (host : Host) (cfg : Config) (app : AppEntry) (extra_args : List String) :
    Except String Command := do
  if (cfg.allowed_ids.map fun allowed => decide (app.id ∈ allowed)) = some false then
    .error ("ERR_LAUNCH_BLOCKED: app_id '" ++ app.id ++ "' not in LAUNCHER_ALLOWED_IDS")
  else if app.provider = "steam" then
    .ok (cfg.steam_binary, ("steam://rungameid/" ++ app.id) :: extra_args)
  else if app.provider = "desktop" then
    let cmd ← desktop_command host cfg app extra_args
    let term := host.effective cfg.terminal
    if app.terminal ∧ term ≠ .none then wrap_with_terminal host cfg term cmd app.id app.working_dir
    else .ok cmd
  else
    match terminals.lookup app.provider with
    | some kind =>
      let argv := match app.exec with
        | some exec => execArgv exec
        | none => [app.id]
      let cmd : Command := match argv with
        | [] => (app.id, extra_args)
        | bin :: rest => (bin, rest ++ extra_args)
      wrap_with_terminal host cfg kind cmd app.id app.working_dir
    | none => .error ("ERR_LAUNCH_NOT_SUPPORTED: unknown provider '" ++ app.provider ++ "'")

/-! ## The cache -/

structure CachedEntries where
  since : Nat
  entries : List AppEntry

structure ScanCache where
  desktop : Option CachedEntries := none
  steam : Option CachedEntries := none

/-- What a scan at some time finds: the directories are those of the configuration. -/
structure Disk where
  dirs : List Directory
  steam : List SteamEntry

/-- The entries of the cache, or those of a new scan where it is too old. -/
def CachedEntries.refreshed (cached : Option CachedEntries) (ttl_ms now : Nat) (entries : List AppEntry) :
    CachedEntries :=
  match cached with
  | none => ⟨now, entries⟩
  | some c => if ttl_ms = 0 ∨ ttl_ms * 1000000 < now - c.since then ⟨now, entries⟩ else c

/-- The apps of a provider, and the cache after it. The time is in nanoseconds. -/
def cached_apps (cfg : Config) (disk : Disk) (cache : ScanCache) (now : Nat) (provider : String)
    (include_hidden : Bool) : List AppEntry × ScanCache :=
  let desktop := CachedEntries.refreshed cache.desktop cfg.cache_ttl_ms now
    ((scan_desktop_dirs disk.dirs true).map AppEntry.from_desktop)
  let steam := CachedEntries.refreshed cache.steam cfg.cache_ttl_ms now (disk.steam.map AppEntry.from_steam)
  let apps := if provider = "auto" ∨ provider = "desktop" then
      (desktop.entries.filter fun e => include_hidden || !e.hidden, some desktop)
    else ([], cache.desktop)
  let games := if provider = "auto" ∨ provider = "steam" then (steam.entries, some steam)
    else ([], cache.steam)
  (apps.1 ++ games.1, ⟨apps.2, games.2⟩)

def find_app (host : Host) (all : List AppEntry) (app_id : String) : Option AppEntry :=
  match all.find? fun a => a.id = app_id with
  | some found => some found
  | none =>
    match all.find? fun a => host.to_lowercase a.id = host.to_lowercase app_id with
    | some found => some found
    | none =>
      match all.filter fun a => host.to_lowercase a.name = host.to_lowercase app_id with
      | [found] => some found
      | _ => none

/-! ## Requests -/

structure LaunchRequest where
  app_id : String
  provider : Option String := none
  args : Option (List String) := none
  dry_run : Option Bool := none

structure LaunchListRequest where
  provider : Option String := none
  query : Option String := none
  limit : Option Nat := none
  include_hidden : Option Bool := none

def providers : List String := ["auto", "desktop", "steam", "tmux", "kitty", "alacritty", "ghostty"]

/-- The provider that is asked for. -/
def provider_of (host : Host) (provider : Option String) : String :=
  host.to_lowercase (Rust.trim (provider.getD "auto"))

def parse_launch (host : Host) (req : LaunchRequest) : Except String (String × String × List String × Bool) := do
  let app_id := Rust.trim req.app_id
  let prov := provider_of host req.provider
  let args := req.args.getD []
  Rust.reject (app_id = "") "ERR_LAUNCH_BAD_PARAMS: \x60app_id\x60 must be non-empty"
  Rust.reject (256 < app_id.utf8ByteSize) "ERR_LAUNCH_BAD_PARAMS: \x60app_id\x60 too long (max 256)"
  Rust.reject (prov ∉ providers) ("ERR_LAUNCH_BAD_PARAMS: invalid \x60provider\x60 '" ++ req.provider.getD "auto" ++
    "' (expected auto/desktop/steam/tmux/kitty/alacritty/ghostty)")
  Rust.reject (32 < args.length) "ERR_LAUNCH_BAD_PARAMS: \x60args\x60 too many (max 32)"
  args.forM fun a => do
    Rust.reject (1024 < a.utf8ByteSize) "ERR_LAUNCH_BAD_PARAMS: arg too long (max 1024)"
    Rust.reject ('\x00' ∈ a.toList) "ERR_LAUNCH_BAD_PARAMS: arg contains null byte"
  return (app_id, prov, args, req.dry_run.getD false)

def parse_launch_list (host : Host) (req : LaunchListRequest) :
    Except String (String × Option String × Nat × Bool) := do
  let prov := provider_of host req.provider
  let query := (req.query.map Rust.trim).filter fun q => q ≠ ""
  let limit := req.limit.getD 100
  Rust.reject (prov ∉ providers) ("ERR_LAUNCH_BAD_PARAMS: invalid \x60provider\x60 '" ++ req.provider.getD "auto" ++ "'")
  Rust.reject (query.any fun q => 256 < q.utf8ByteSize) "ERR_LAUNCH_BAD_PARAMS: \x60query\x60 too long"
  Rust.reject (limit = 0 ∨ 500 < limit) "ERR_LAUNCH_BAD_PARAMS: \x60limit\x60 must be 1..500"
  return (prov, query, limit, req.include_hidden.getD false)

/-! ## Listing -/

def is_subsequence : List Char → List Char → Bool
  | [], _ => true
  | _ :: _, [] => false
  | c :: needle, h :: haystack => if h = c then is_subsequence needle haystack else is_subsequence (c :: needle) haystack

def fuzzy_score (query id name : String) : Option Nat :=
  let q := Rust.trim query
  if q = "" then some 0
  else if id = q ∨ name = q then some 100
  else if q.toList.isPrefixOf id.toList then some 90
  else if q.toList.isPrefixOf name.toList then some 80
  else if Rust.contains id q then some 70
  else if Rust.contains name q then some 60
  else if is_subsequence q.toList id.toList then some 40
  else if is_subsequence q.toList name.toList then some 30
  else if q.toList.all (· ∈ id.toList) ∨ q.toList.all (· ∈ name.toList) then some 10
  else none

/-- The apps that match a query, the best first. -/
def scored (host : Host) (query : String) (apps : List AppEntry) : List AppEntry :=
  let ql := host.to_lowercase query
  let scored := apps.filterMap fun a =>
    (fuzzy_score ql (host.to_lowercase a.id) (host.to_lowercase a.name)).map fun s => (s, a)
  (scored.mergeSort fun a b => b.1 < a.1 ∨ (a.1 = b.1 ∧ a.2.id ≤ b.2.id)).map Prod.snd

/-- What is shown of an app. -/
structure Shown where
  id : String
  name : String
  provider : String
  exec : Option String
  path : String
deriving DecidableEq

def AppEntry.shown (a : AppEntry) : Shown := ⟨a.id, a.name, a.provider, a.exec, a.path⟩

structure Listed where
  apps : List Shown
  providers : List String

inductive LauncherError where
  | BadParams (e : String)
  | NotFound (e : String)
  | NotSupported (e : String)
  | ProviderMissing (e : String)
  | Blocked (e : String)
  | SpawnFailed (e : String)
  | Timeout (e : String)

def picked (host : Host) (query : Option String) (limit : Nat) (apps : List AppEntry) : List AppEntry :=
  (match query with
  | some q => scored host q apps
  | none => apps.mergeSort fun a b => a.id ≤ b.id).take limit

def handle_list (host : Host) (cfg : Config) (disk : Disk) (cache : ScanCache) (now : Nat)
    (params : Except String LaunchListRequest) : Except LauncherError Listed × ScanCache :=
  match params.bind (parse_launch_list host) with
  | .error e => (.error (.BadParams e), cache)
  | .ok (provider, query, limit, include_hidden) =>
    let apps := cached_apps cfg disk cache now provider include_hidden
    (.ok ⟨(picked host query limit apps.1).map AppEntry.shown,
      if provider = "auto" then ["desktop", "steam"] else [provider]⟩, apps.2)

/-! ## Launching -/

structure Launched where
  launched : Bool
  dry_run : Bool
  provider : String
  app_id : String
  name : String
  command : String
  argv : List String

/-- The error that a text stands for. -/
def resolve_error (e : String) : LauncherError :=
  if Rust.contains e "ERR_LAUNCH_BLOCKED" then .Blocked e
  else if Rust.contains e "ERR_LAUNCH_PROVIDER_MISSING" then .ProviderMissing e
  else if Rust.contains e "ERR_LAUNCH_NOT_SUPPORTED" then .NotSupported e
  else .BadParams e

def spawn_error (e : String) : LauncherError :=
  if Rust.contains e "ERR_LAUNCH_PROVIDER_MISSING" then .ProviderMissing e
  else if Rust.contains e "ERR_LAUNCH_TIMEOUT" then .Timeout e
  else .SpawnFailed e

/-- What becomes of a launch: its answer, and the command that is spawned. -/
abbrev Outcome := Except LauncherError Launched × Option Command

/-- Launch an app that was found. -/
def launch_app (host : Host) (cfg : Config) (spawn_detached : Command → Except String Unit) (app : AppEntry)
    (extra_args : List String) (dry_run : Bool) : Outcome :=
  match resolve_launch_command host cfg app extra_args with
  | .error e => (.error (resolve_error e), none)
  | .ok cmd =>
    let answer : Launched := ⟨!dry_run, dry_run, app.provider, app.id, app.name, cmd.1, cmd.2⟩
    if dry_run then (.ok answer, none)
    else
      match spawn_detached cmd with
      | .error e => (.error (spawn_error e), some cmd)
      | .ok () => (.ok answer, some cmd)

/-- The app that is the text itself as a command. -/
def AppEntry.direct (app_id provider : String) : AppEntry where
  id := app_id
  name := app_id
  provider := provider
  exec := some app_id
  path := ""
  hidden := false
  terminal := false
  working_dir := none

def handle_launch (host : Host) (cfg : Config) (disk : Disk) (cache : ScanCache) (now : Nat)
    (spawn_detached : Command → Except String Unit) (params : Except String LaunchRequest) : Outcome × ScanCache :=
  match params.bind (parse_launch host) with
  | .error e => ((.error (.BadParams e), none), cache)
  | .ok (app_id, provider, extra_args, dry_run) =>
    let all := cached_apps cfg disk cache now provider true
    let found := find_app host all.1 app_id
    let app := if (terminals.lookup provider).isSome then some (found.getD (.direct app_id provider)) else found
    match app with
    | some app => (launch_app host cfg spawn_detached app extra_args dry_run, all.2)
    | none =>
      ((.error (.NotFound ("app '" ++ app_id ++ "' not found (provider=" ++ provider ++ ")")), none), all.2)

end Launcher
