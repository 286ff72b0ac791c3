import VynkorPlugins.Network.Request

/-!
# Which connections the SSRF guard lets through
-/

namespace Network

open Net Transition

variable {lower : String → String} {plugin : NetworkPlugin} {params : HttpRequestParams}

/-! ## The range test -/

theorem internal_eq (a : IpAddr) : internal a = (isBlockedIp a || missed a) := by
  cases a with
  | v4 x => simp [internal, internalV4, isBlockedIp, missed, Bool.or_comm, Bool.or_left_comm, Bool.or_assoc]
  | v6 x => simp [internal, isBlockedIp, missed, Bool.or_comm, Bool.or_left_comm, Bool.or_assoc]

theorem isBlockedIp_of_missed {a : IpAddr} (h : missed a = true) : isBlockedIp a = false := by
  cases a with
  | v4 x =>
    obtain ⟨ha, -⟩ : x.a = 0 ∧ _ := of_decide_eq_true h
    simp [isBlockedIp, Ipv4Addr.isLoopback, Ipv4Addr.isPrivate, Ipv4Addr.isLinkLocal,
      Ipv4Addr.isMulticast, Ipv4Addr.isBroadcast, ha]
  | v6 x =>
    have ha : x.a = 0 ∧ x.isLoopback = false := by
      rcases (Bool.or_eq_true _ _).mp h with h | h
      · have hsegments := of_decide_eq_true h
        refine ⟨(List.cons.inj hsegments).1, ?_⟩
        rw [Ipv6Addr.isLoopback, hsegments]
        decide
      · obtain ⟨v4, hv4, -⟩ := (Option.any_eq_true _ _).mp h
        unfold Ipv6Addr.toIpv4Mapped at hv4
        split_ifs at hv4 with hsegments
        simp only [Ipv6Addr.segments, List.take_succ_cons, List.take_zero, List.cons.injEq] at hsegments
        refine ⟨hsegments.1, ?_⟩
        simp [Ipv6Addr.isLoopback, Ipv6Addr.segments, hsegments]
    simp [isBlockedIp, Ipv6Addr.isUniqueLocal, Ipv6Addr.isUnicastLinkLocal, Ipv6Addr.isMulticast, ha]

/-! ## The gates -/

/-- The URL has passed the gate for literal addresses. -/
def NetworkPlugin.Checked (plugin : NetworkPlugin) (url : Url) : Prop :=
  checkLiteralIpHost url.host.str plugin.extra_blocklist plugin.allowlist = .ok ()

theorem checked_of_precheck {url : Url} {lookup : Lookup}
    (h : plugin.precheckHost lower url lookup = .ok ()) : plugin.Checked url := by
  unfold NetworkPlugin.precheckHost at h
  unfold NetworkPlugin.Checked
  cases hcheck : checkLiteralIpHost url.host.str plugin.extra_blocklist plugin.allowlist with
  | ok u => rfl
  | error e =>
    rw [hcheck] at h
    cases h

theorem checked_of_follow {previous : List Url} {url : Url}
    (h : plugin.policyFor params previous url = .follow) : plugin.Checked url := by
  unfold NetworkPlugin.policyFor NetworkPlugin.redirectPolicy at h
  unfold NetworkPlugin.Checked
  split_ifs at h
  cases hcheck : checkLiteralIpHost url.host.str plugin.extra_blocklist plugin.allowlist with
  | ok u => rfl
  | error e =>
    rw [hcheck] at h
    cases h

/-- A literal IPv4 address that has passed the gate is neither on the operator's list nor in a range
    that the test knows. -/
theorem passed_ipv4 {url : Url} {x : Ipv4Addr} (hallow : plugin.allowlist.isEmpty = true)
    (h : plugin.Checked url) (hhost : url.host = .ipv4 x) :
    plugin.extra_blocklist.blocksIp (.v4 x) = false ∧ isBlockedIp (.v4 x) = false := by
  unfold NetworkPlugin.Checked checkLiteralIpHost at h
  rw [hhost, Host.str, parse_print_v4] at h
  simp only [hallow, Bool.not_true, Bool.false_eq_true, if_false] at h
  split_ifs at h with hblocked hrange
  simp only [Bool.not_eq_true, Bool.not_eq_true', Bool.not_eq_false] at hblocked hrange
  exact ⟨hblocked, by simpa using hrange⟩

theorem mem_filterAllowedAddrs {host : String} {addrs : List IpAddr} {a : IpAddr}
    (hallow : plugin.allowlist.isEmpty = true) :
    a ∈ filterAllowedAddrs lower host addrs plugin.extra_blocklist plugin.allowlist ↔
      a ∈ addrs ∧ plugin.extra_blocklist.blocksIp a = false ∧ isBlockedIp a = false := by
  rw [filterAllowedAddrs, List.mem_filter]
  simp only [hallow, Bool.not_true, Bool.false_eq_true, if_false]
  cases plugin.extra_blocklist.blocksIp a <;> simp

theorem forbids_of_passed {a : IpAddr} (hblocked : plugin.extra_blocklist.blocksIp a = false)
    (hrange : isBlockedIp a = false) : plugin.forbids a = missed a := by
  rw [NetworkPlugin.forbids, internal_eq, hblocked, hrange, Bool.false_or, Bool.or_false]

/-! ## One connection -/

/-- A connection for a URL that has passed the gate for literal addresses goes to a forbidden address
    exactly if its host is a gap. -/
theorem connected_iff {url : Url} {lookup : Lookup} {addrs : List IpAddr}
    (hallow : plugin.allowlist.isEmpty = true) (hchecked : plugin.Checked url)
    (haddrs : plugin.addresses lower url lookup = .ok addrs) :
    (∀ a ∈ addrs, plugin.forbids a = false) ↔ plugin.gap (.connected url lookup addrs) = false := by
  obtain ⟨host, path⟩ := url
  cases host with
  | ipv4 x =>
    obtain ⟨hblocked, hrange⟩ := passed_ipv4 hallow hchecked rfl
    obtain rfl := Except.ok.inj haddrs
    simp [forbids_of_passed hblocked hrange, missed, NetworkPlugin.gap]
  | ipv6 x =>
    obtain rfl := Except.ok.inj haddrs
    simp [NetworkPlugin.gap]
  | domain name hname =>
    simp only [NetworkPlugin.addresses, SsrfSafeResolver.resolve] at haddrs
    split_ifs at haddrs
    cases lookup with
    | error e => cases haddrs
    | ok resolved =>
      simp only at haddrs
      split_ifs at haddrs
      obtain rfl := Except.ok.inj haddrs
      simp only [NetworkPlugin.gap, mem_filterAllowedAddrs hallow, List.any_eq_false, Bool.and_eq_true,
        Bool.not_eq_true', not_and, Bool.not_eq_false]
      constructor
      · intro h a ha hmissed
        by_contra hblocked
        rw [Bool.not_eq_true] at hblocked
        have hrange := isBlockedIp_of_missed hmissed
        have hforbids := h a ⟨ha, hblocked, hrange⟩
        rw [forbids_of_passed hblocked hrange, hmissed] at hforbids
        cases hforbids
      · rintro h a ⟨ha, hblocked, hrange⟩
        rw [forbids_of_passed hblocked hrange]
        by_contra hmissed
        have hblocked' := h a ha (by simpa using hmissed)
        rw [hblocked] at hblocked'
        cases hblocked'

/-! ## Runs -/

/-- What holds between the steps of a request: its URL and the one it connects to have passed the gate
    for literal addresses. -/
def NetworkPlugin.Guarded (plugin : NetworkPlugin) (params : HttpRequestParams) : Phase → Prop
  | .connecting url _ _ => plugin.Checked params.url ∧ plugin.Checked url
  | _ => True

theorem guarded_afterAttempt (h : plugin.Checked params.url) (attempt : Nat) (outcome : Outcome) :
    plugin.Guarded params (params.afterAttempt attempt outcome) := by
  unfold HttpRequestParams.afterAttempt
  split_ifs
  · exact ⟨h, h⟩
  · trivial

/-- One step keeps the guard, and what it connects to is decided by its gap. -/
theorem step_guarded {p p' : Phase} {l : NetLabel} (hallow : plugin.allowlist.isEmpty = true)
    (hguard : plugin.Guarded params p) (hstep : plugin.Step lower params p l p') :
    plugin.Guarded params p' ∧
      ((∀ a ∈ l.connections, plugin.forbids a = false) ↔ plugin.gap l = false) := by
  have hnone : ∀ l, l.connections = [] → plugin.gap l = false →
      ((∀ a ∈ l.connections, plugin.forbids a = false) ↔ plugin.gap l = false) := by
    intro l hl hgap
    simp [hl, hgap]
  obtain ⟨input, hstep⟩ := hstep
  unfold NetworkPlugin.advance at hstep
  split at hstep
  · split_ifs at hstep
    obtain ⟨rfl, rfl⟩ := Prod.mk.inj (Option.some.inj hstep)
    exact ⟨trivial, hnone _ rfl rfl⟩
  · split at hstep <;> obtain ⟨rfl, rfl⟩ := Prod.mk.inj (Option.some.inj hstep)
    · rename_i hcheck
      have hchecked := checked_of_precheck hcheck
      exact ⟨⟨hchecked, hchecked⟩, hnone _ rfl rfl⟩
    · exact ⟨trivial, hnone _ rfl rfl⟩
  · rename_i url previous attempt lookup reply
    obtain ⟨hfirst, hchecked⟩ := hguard
    split at hstep <;> obtain ⟨rfl, rfl⟩ := Prod.mk.inj (Option.some.inj hstep)
    · exact ⟨guarded_afterAttempt hfirst _ _, hnone _ rfl rfl⟩
    · rename_i addrs haddrs
      refine ⟨?_, connected_iff hallow hchecked haddrs⟩
      cases reply with
      | ends outcome => exact guarded_afterAttempt hfirst _ _
      | redirect location unfollowed =>
        simp only
        split
        · exact guarded_afterAttempt hfirst _ _
        · exact guarded_afterAttempt hfirst _ _
        · rename_i hfollow
          exact ⟨hfirst, checked_of_follow hfollow⟩
  · cases hstep

theorem run_guarded {trace : List NetLabel} {p : Phase} (hallow : plugin.allowlist.isEmpty = true)
    (hrun : Run (plugin.Step lower params) .start trace p) :
    plugin.Guarded params p ∧ ∀ l ∈ trace,
      ((∀ a ∈ l.connections, plugin.forbids a = false) ↔ plugin.gap l = false) := by
  refine hrun.invariant (I := fun trace p => plugin.Guarded params p ∧ ∀ l ∈ trace,
    ((∀ a ∈ l.connections, plugin.forbids a = false) ↔ plugin.gap l = false)) ?_ ?_
  · exact ⟨trivial, fun l hl => nomatch hl⟩
  · rintro trace p l p' ⟨hguard, hall⟩ hstep
    obtain ⟨hguard', hiff⟩ := step_guarded hallow hguard hstep
    exact ⟨hguard', List.forall_mem_cons.mpr ⟨hiff, hall⟩⟩

/-- Without an allowlist, no connection of a request goes to a forbidden address exactly if none of
    its connections is for a host that gets past the gates. -/
theorem ssrf_guard_iff {trace : List NetLabel} {p : Phase} (hallow : plugin.allowlist.isEmpty = true)
    (hrun : Run (plugin.Step lower params) .start trace p) :
    (∀ l ∈ trace, ∀ a ∈ l.connections, plugin.forbids a = false) ↔
      ∀ l ∈ trace, plugin.gap l = false :=
  forall₂_congr (run_guarded hallow hrun).2

/-! ## A redirect to a literal address -/

/-- A request that follows redirects, from a public host. -/
def sampleParams : HttpRequestParams where
  url := { host := .domain "example.com" (by decide) }
  follow_redirects := true

/-- The host resolves to a public address and redirects to another host, which answers. -/
def redirectTo (host : Host) : Option (List NetLabel × Phase) :=
  let lookup : Lookup := .ok [.v4 ⟨93, 184, 216, 34⟩]
  runOf (NetworkPlugin.advance String.toLower {} sampleParams) .start
    [.precheck lookup, .exchange lookup (.redirect { host } (.response 302)),
      .exchange lookup (.ends (.response 200))]

theorem run_redirectTo {host : Host} {r : List NetLabel × Phase} (hr : redirectTo host = some r) :
    Run (NetworkPlugin.Step String.toLower {} sampleParams) .start r.1 r.2 :=
  run_runOf (fun _ input _ _ h => ⟨input, h⟩) hr

def publicRedirect : List NetLabel × Phase :=
  (redirectTo (.ipv4 ⟨8, 8, 8, 8⟩)).get (by decide)

theorem ssrf_guard_iff_sample :
    (publicRedirect.1.all fun l => l.connections.all fun a => !({} : NetworkPlugin).forbids a) = true := by
  have hrun := run_redirectTo ((Option.some_get _).symm : redirectTo (.ipv4 ⟨8, 8, 8, 8⟩) = some publicRedirect)
  have hgap : ∀ l ∈ publicRedirect.1, ({} : NetworkPlugin).gap l = false := by decide
  have hall := (ssrf_guard_iff rfl hrun).mpr hgap
  rw [List.all_eq_true]
  intro l hl
  rw [List.all_eq_true]
  intro a ha
  rw [hall l hl a ha]
  rfl

/-- The remote host redirects to `http://[::1]/`. -/
def loopbackRedirect : List NetLabel × Phase :=
  (redirectTo (.ipv6 ⟨0, 0, 0, 0, 0, 0, 0, 1⟩)).get (by decide)

theorem redirect_reaches_loopback :
    Run (NetworkPlugin.Step String.toLower {} sampleParams) .start loopbackRedirect.1
      loopbackRedirect.2 ∧
    ¬ ∀ l ∈ loopbackRedirect.1, ∀ a ∈ l.connections, ({} : NetworkPlugin).forbids a = false := by
  refine ⟨run_redirectTo (Option.some_get _).symm, ?_⟩
  decide

end Network
