import VynkorPlugins.Base.Net
import VynkorPlugins.Base.Rust
import VynkorPlugins.Base.Transition

/-!
# The SSRF policy

Which hosts and addresses the plugin may reach (`ssrf.rs`, and the resolver of `handler.rs`).
`lower` is `str::to_lowercase`.
-/

namespace Network

open Net

/-! ## The lists of the operator -/

/-- Literal addresses and host names in lower case. -/
structure Blocklist where
  extra_ips : List IpAddr := []
  extra_hosts : List String := []

structure Allowlist where
  ips : List IpAddr := []
  hosts : List String := []

/-- The entries of a comma-separated list: addresses, and whatever else is not blank. -/
def parseEntries (lower : String → String) (raw : String) : List IpAddr × List String :=
  let entries := ((raw.splitOn ",").map Rust.trim).filter (· ≠ "")
  (entries.filterMap IpAddr.parse,
    (entries.filter fun entry => (IpAddr.parse entry).isNone).map lower)

def Blocklist.parse (lower : String → String) (raw : String) : Blocklist :=
  let entries := parseEntries lower raw
  { extra_ips := entries.1, extra_hosts := entries.2 }

def Blocklist.blocksIp (l : Blocklist) (ip : IpAddr) : Bool := ip ∈ l.extra_ips

def Blocklist.blocksHost (lower : String → String) (l : Blocklist) (host : String) : Bool :=
  lower host ∈ l.extra_hosts

def Allowlist.parse (lower : String → String) (raw : String) : Allowlist :=
  let entries := parseEntries lower raw
  { ips := entries.1, hosts := entries.2 }

def Allowlist.isEmpty (l : Allowlist) : Bool := l.ips.isEmpty && l.hosts.isEmpty

def Allowlist.allowsHost (lower : String → String) (l : Allowlist) (host : String) : Bool :=
  lower host ∈ l.hosts

def Allowlist.allowsIp (l : Allowlist) (ip : IpAddr) : Bool := ip ∈ l.ips

/-! ## The gates -/

def isBlockedIp : IpAddr → Bool
  | .v4 x => x.isLoopback || x.isPrivate || x.isLinkLocal || x.isMulticast || x.isBroadcast
  | .v6 x => x.isLoopback || x.isUniqueLocal || x.isUnicastLinkLocal || x.isMulticast

/-- The gate for a host that is a literal address. Any other host passes: its addresses are checked
    when they are resolved. -/
def checkLiteralIpHost (host : String) (extra_blocklist : Blocklist) (allowlist : Allowlist) :
    Except String Unit :=
  match IpAddr.parse host with
  | none => .ok ()
  | some ip =>
    if extra_blocklist.blocksIp ip then .error ("host " ++ host ++ " is blocked by operator blocklist")
    else
      let allowed := if !allowlist.isEmpty then allowlist.allowsIp ip else !isBlockedIp ip
      if !allowed then .error ("IP " ++ ip.print ++ " is blocked by SSRF policy")
      else .ok ()

/-- The addresses among the answer of a lookup that the policy permits. -/
def filterAllowedAddrs (lower : String → String) (host : String) (addrs : List IpAddr)
    (extra_blocklist : Blocklist) (allowlist : Allowlist) : List IpAddr :=
  addrs.filter fun a =>
    if extra_blocklist.blocksIp a then false
    else if !allowlist.isEmpty then allowlist.allowsHost lower host || allowlist.allowsIp a
    else !isBlockedIp a

/-- What a lookup answers. -/
abbrev Lookup := Except String (List IpAddr)

/-- Whether the policy permits reaching a host at all, by one lookup. -/
def checkHostReachable (lower : String → String) (host : String) (extra_blocklist : Blocklist)
    (allowlist : Allowlist) (lookup : Lookup) : Except String Unit :=
  if extra_blocklist.blocksHost lower host then
    .error ("host " ++ host ++ " is blocked by operator blocklist")
  else
    match lookup with
    | .error e => .error ("failed to resolve host " ++ host ++ ": " ++ e)
    | .ok resolved =>
      if (filterAllowedAddrs lower host resolved extra_blocklist allowlist).isEmpty then
        .error ("all resolved IPs for " ++ host ++ " are blocked by SSRF policy")
      else .ok ()

/-- The resolver of every client. -/
structure SsrfSafeResolver where
  extra_blocklist : Blocklist
  allowlist : Allowlist

def SsrfSafeResolver.resolve (lower : String → String) (resolver : SsrfSafeResolver) (host : String)
    (lookup : Lookup) : Except String (List IpAddr) :=
  if resolver.extra_blocklist.blocksHost lower host then
    .error ("host " ++ host ++ " is blocked by operator blocklist")
  else
    match lookup with
    | .error e => .error e
    | .ok resolved =>
      let allowed := filterAllowedAddrs lower host resolved resolver.extra_blocklist resolver.allowlist
      if allowed.isEmpty then
        .error ("all resolved IPs for " ++ host ++ " are blocked by SSRF policy")
      else .ok allowed

end Network

/-!
## Requests

An `http_request` with the connections that are made for it: the checks before it (`precheck_host`),
the redirect policy, and the attempts of `fetch_with_stats` and `open_stream`. Of the HTTP client it
is assumed that it connects to a literal address directly and to any other host through its resolver,
and that it asks its redirect policy before each hop. No proxy is configured.
-/

namespace Network

open Net

/-! ## URLs -/

/-- The host of a parsed `http` or `https` URL. A domain is never the text of an address: the parser
    makes such a host an address. -/
inductive Host where
  | domain (name : String) (h : IpAddr.parse name = none)
  | ipv4 (addr : Ipv4Addr)
  | ipv6 (addr : Ipv6Addr)

/-- `host_str`: an IPv6 address stands in brackets. -/
def Host.str : Host → String
  | .domain name _ => name
  | .ipv4 addr => (IpAddr.v4 addr).print
  | .ipv6 addr => "[" ++ String.ofList (addr.compressed ++ [']'])

structure Url where
  host : Host
  path : String := "/"

/-! ## The plugin -/

def maxRetries : Nat := 5
def maxRedirects : Nat := 10

/-- What is left of the parameters of a request once they are validated. -/
structure HttpRequestParams where
  url : Url
  streaming : Bool := false
  cache_ttl_ms : Nat := 0
  max_retries : Nat := 0
  follow_redirects : Bool := false
  max_redirects : Nat := maxRedirects
  max_retries_le : max_retries ≤ maxRetries := by decide
  max_redirects_le : max_redirects ≤ maxRedirects := by decide

structure NetworkPlugin where
  extra_blocklist : Blocklist := {}
  allowlist : Allowlist := {}

/-- How a client goes on after a redirect. -/
inductive RedirectAction where
  | stop
  | error (e : String)
  | follow

/-- The policy of the clients that follow up to `max_redirects` redirects. `previous` are the URLs of
    the request so far. -/
def NetworkPlugin.redirectPolicy (plugin : NetworkPlugin) (max_redirects : Nat) (previous : List Url)
    (url : Url) : RedirectAction :=
  if previous.length > max_redirects then .stop
  else
    match checkLiteralIpHost url.host.str plugin.extra_blocklist plugin.allowlist with
    | .ok () => .follow
    | .error e => .error e

/-- The policy of the client for a request (`client_for`). -/
def NetworkPlugin.policyFor (plugin : NetworkPlugin) (params : HttpRequestParams) (previous : List Url)
    (url : Url) : RedirectAction :=
  if params.follow_redirects then plugin.redirectPolicy params.max_redirects previous url else .stop

def NetworkPlugin.precheckHost (lower : String → String) (plugin : NetworkPlugin) (url : Url)
    (lookup : Lookup) : Except String Unit := do
  checkLiteralIpHost url.host.str plugin.extra_blocklist plugin.allowlist
  if (IpAddr.parse url.host.str).isNone ∧ url.host.str ≠ "" then
    checkHostReachable lower url.host.str plugin.extra_blocklist plugin.allowlist lookup

/-- The addresses that the client may connect to for a URL: a literal address, or what its resolver
    makes of the answer of a lookup. -/
def NetworkPlugin.addresses (lower : String → String) (plugin : NetworkPlugin) (url : Url)
    (lookup : Lookup) : Except String (List IpAddr) :=
  match url.host with
  | .ipv4 addr => .ok [.v4 addr]
  | .ipv6 addr => .ok [.v6 addr]
  | .domain name _ =>
    SsrfSafeResolver.resolve lower { plugin with } name lookup

/-! ## A request in flight -/

/-- How an attempt ends: with the status of a response, or with an error. -/
inductive Outcome where
  | response (status : Nat)
  | error (retryable : Bool)

/-- What the remote side makes of a connection: it redirects, which ends the attempt in its own way
    if the redirect is not followed; or it ends the attempt. -/
inductive Reply where
  | redirect (location : Url) (unfollowed : Outcome)
  | ends (outcome : Outcome)

/-- Where a request is. -/
inductive Phase where
  | start
  | connecting (url : Url) (previous : List Url) (attempt : Nat)
  | finished

/-- What has happened in a step: the addresses that the client may have connected to for a URL, with
    the answer of the lookup that gave them. -/
inductive NetLabel where
  | cached
  | prechecked (lookup : Lookup)
  | connected (url : Url) (lookup : Lookup) (addrs : List IpAddr)
  | unresolved (url : Url) (lookup : Lookup)

/-- What the world answers in a step. -/
inductive NetInput where
  | cacheHit
  | precheck (lookup : Lookup)
  | exchange (lookup : Lookup) (reply : Reply)

def isRetryableStatus (status : Nat) : Bool :=
  status ∈ [429, 500, 502, 503, 504]

def Outcome.retryable : Outcome → Bool
  | .response status => isRetryableStatus status
  | .error retryable => retryable

/-- After an attempt: a streaming request is never tried again. -/
def HttpRequestParams.afterAttempt (params : HttpRequestParams) (attempt : Nat) (outcome : Outcome) :
    Phase :=
  if !params.streaming && attempt < params.max_retries && outcome.retryable then
    .connecting params.url [] (attempt + 1)
  else .finished

/-- The next step of a request, by what the world answers in it. -/
def NetworkPlugin.advance (lower : String → String) (plugin : NetworkPlugin)
    (params : HttpRequestParams) : Phase → NetInput → Option (NetLabel × Phase)
  | .start, .cacheHit =>
    if !params.streaming && params.cache_ttl_ms > 0 then some (.cached, .finished) else none
  | .start, .precheck lookup =>
    match plugin.precheckHost lower params.url lookup with
    | .ok () => some (.prechecked lookup, .connecting params.url [] 0)
    | .error _ => some (.prechecked lookup, .finished)
  | .connecting url previous attempt, .exchange lookup reply =>
    match plugin.addresses lower url lookup with
    | .error _ => some (.unresolved url lookup, params.afterAttempt attempt (.error true))
    | .ok addrs =>
      let next :=
        match reply with
        | .ends outcome => params.afterAttempt attempt outcome
        | .redirect location unfollowed =>
          match plugin.policyFor params (previous ++ [url]) location with
          | .stop => params.afterAttempt attempt unfollowed
          -- a hop that the policy rejects is an error that is not retried
          | .error _ => params.afterAttempt attempt (.error false)
          | .follow => .connecting location (previous ++ [url]) attempt
      some (.connected url lookup addrs, next)
  | _, _ => none

/-- A step of a request. -/
def NetworkPlugin.Step (lower : String → String) (plugin : NetworkPlugin) (params : HttpRequestParams)
    (p : Phase) (l : NetLabel) (p' : Phase) : Prop :=
  ∃ input, plugin.advance lower params p input = some (l, p')

/-! ## What must not be reached -/

/-- An address of an internal network, as IPv4. -/
def internalV4 (x : Ipv4Addr) : Bool :=
  x.isLoopback || x.isUnspecified || x.isPrivate || x.isLinkLocal || x.isMulticast || x.isBroadcast

/-- An address of an internal network, as IPv4, IPv6 or IPv4 mapped into IPv6. -/
def internal : IpAddr → Bool
  | .v4 x => internalV4 x
  | .v6 x =>
    x.isLoopback || x.isUnspecified || x.isUniqueLocal || x.isUnicastLinkLocal || x.isMulticast ||
      x.toIpv4Mapped.any internalV4

/-- No connection may be made to this address. -/
def NetworkPlugin.forbids (plugin : NetworkPlugin) (a : IpAddr) : Bool :=
  internal a || plugin.extra_blocklist.blocksIp a

/-- The connections of a step. -/
def NetLabel.connections : NetLabel → List IpAddr
  | .connected _ _ addrs => addrs
  | _ => []

/-- An internal address that the range test does not know: an unspecified one, or an IPv4 address
    that is mapped into IPv6. -/
def missed : IpAddr → Bool
  | .v4 x => x.isUnspecified
  | .v6 x => x.isUnspecified || x.toIpv4Mapped.any internalV4

/-- A host that gets past the gates: the literal `0.0.0.0`; a literal IPv6 address that is forbidden;
    or a name with a missed address that the operator has not blocked. -/
def NetworkPlugin.gap (plugin : NetworkPlugin) : NetLabel → Bool
  | .connected url lookup _ =>
    match url.host with
    | .ipv4 addr => addr.isUnspecified
    | .ipv6 addr => plugin.forbids (.v6 addr)
    | .domain .. =>
      match lookup with
      | .ok addrs => addrs.any fun a => missed a && !plugin.extra_blocklist.blocksIp a
      | .error _ => false
  | _ => false

end Network
