import VynkorPlugins.Audio.PushToTalk
import VynkorPlugins.Audio.Proofs.TurnProofs

/-!
# Push to talk, over whole runs

What the worker has not read yet decides what it does next, so that the invariant is about the events
before its receiver: while it is not in a turn of its own no press there is followed by its release,
and while no turn runs none came during one.
-/

namespace Audio

open Async DaemonTask Transition

variable {config : DaemonConfig} {d d' : Daemon}

/-! ## What the worker does -/

/-- What the worker may do in a phase. -/
def PttPhase.Allowed : PttPhase → DaemonEffect → Prop
  | .waiting, .recv | .waiting, .enabled | .waiting, .send _ => True
  | .pressed, .enabled => True
  | .checked, .turn .tryBeginTurn => True
  | .turning, .turn .tryBeginTurn => False
  | .turning, .turn _ => True
  | _, _ => False

/-- A request does what it likes. -/
def pttProtocol (config : DaemonConfig) :
    Protocol DaemonEffect DaemonEffect.Reply (Option PttPhase) where
  allowed s e := ∀ phase, s = some phase → phase.Allowed e
  next s e r s' := s' = s.map fun phase => phase.next config e r

/-- What a turn does after its begin and before its end. -/
def Inner : TurnEffect → Prop
  | .tryBeginTurn | .endTurn _ => False
  | _ => True

theorem inner_of_not_essential (e : TurnEffect) (h : Turn.essential e = false) : Inner e := by
  unfold Inner
  split
  · cases h
  · cases h
  · trivial

theorem asks_startCapture : Asks Inner (Turn.startCapture config) := by
  refine .call trivial fun opened => ?_
  rcases opened with ⟨_ | _, _⟩
  · exact .done
  · refine .call trivial fun mic => ?_
    rcases mic with ⟨_ | mic, _⟩
    · exact .call trivial fun _ => .done
    · simp only [Async.pure_eq, Async.bind]
      split
      · exact .done
      · exact .done

theorem asks_finishCapture {session_id : String} : Asks Inner (Turn.finishCapture config session_id) := by
  refine .call trivial fun stopped => ?_
  rcases stopped with ⟨_ | _, _⟩
  · exact .done
  · refine .call trivial fun stop => ?_
    rcases stop with ⟨_ | stop, _⟩
    · exact .done
    · simp only [Async.pure_eq, Async.bind]
      split
      · exact .done
      · exact .done

theorem asks_pttListen : Asks Inner (Turn.pttListen config) := by
  refine Asks.bind asks_startCapture fun session => ?_
  cases session with
  | error e => exact .done
  | ok session =>
    refine .call trivial fun released => asks_finishCapture.bind fun transcript => ?_
    cases released with
    | error e => exact .done
    | ok => exact .done

theorem asks_runPttTurn : Asks Inner (Turn.runPttTurn config) :=
  Asks.bind asks_pttListen fun _ => Turn.asks_answer.mono inner_of_not_essential

theorem ofTurn_bind {α β : Type} {m : Turn α} {f : α → Turn β} :
    ofTurn (m >>= f) = ofTurn m >>= fun a => ofTurn (f a) := by
  induction m with
  | done a => rfl
  | call e k ih =>
    show Async.call (.turn e) (fun r => ofTurn (k r >>= f)) =
      Async.call (.turn e) fun r => ofTurn (k r) >>= fun a => ofTurn (f a)
    exact congrArg (Async.call _) (funext ih)

theorem obeys_of_inner {α : Type} {m : Turn α} (h : Asks Inner m) :
    Obeys (pttProtocol config) (fun s _ => s = some .turning) (some .turning) (ofTurn m) := by
  induction h with
  | done => rfl
  | @call e k he _ ih =>
    cases e with
    | tryBeginTurn => cases he
    | endTurn result => cases he
    | _ =>
      refine ⟨?_, ?_⟩
      · rintro phase ⟨⟩
        trivial
      · rintro r s rfl
        exact ih r

/-- What follows a claim of the slot, up to the end of the turn. -/
theorem obeys_turn :
    Obeys (pttProtocol config) (fun s _ => s = some .waiting) (some .checked)
      (ofTurn (Turn.turn config .ptt)) := by
  refine ⟨?_, ?_⟩
  · rintro phase ⟨⟩
    trivial
  · rintro got s rfl
    cases got with
    | false => exact rfl
    | true =>
      refine ⟨?_, ?_⟩
      · rintro phase ⟨⟩
        trivial
      · rintro _ s rfl
        show Obeys _ _ (some PttPhase.turning) (ofTurn (Turn.runPttTurn config >>= _))
        rw [ofTurn_bind]
        refine (obeys_of_inner asks_runPttTurn).bind ?_
        rintro _ result rfl
        refine ⟨?_, ?_⟩
        · rintro phase ⟨⟩
          trivial
        · rintro _ s rfl
          refine ⟨?_, ?_⟩
          · rintro phase ⟨⟩
            trivial
          · rintro _ s rfl
            exact rfl

/-- What follows the press of any key. -/
theorem obeys_enabled {e : BusEvent} (hetype : e.etype = EV_HOTKEY_PRESSED) :
    Obeys (pttProtocol config) (fun s _ => s = some .waiting)
      (some (if config.isPress e then .pressed else .waiting))
      (effect .enabled >>= fun on =>
        if on = false then return ()
        else if config.bound e = false then return ()
        else do
          match ← ofTurn (Turn.turn config .ptt) with
          | .error _ => return ()
          | .ok result => effect (.send result)) := by
  have hpress : config.isPress e = config.bound e := by simp [DaemonConfig.isPress, hetype]
  rw [hpress]
  refine ⟨?_, ?_⟩
  · rintro phase ⟨⟩
    split <;> trivial
  · rintro on s rfl
    cases on with
    | false =>
      show some (if _ ∧ false = true then PttPhase.checked else .waiting) = some .waiting
      rw [if_neg fun h => nomatch h.2]
    | true =>
      cases hbound : config.bound e with
      | false => exact rfl
      | true =>
        refine obeys_turn.bind ?_
        rintro _ outcome rfl
        cases outcome with
        | error e => exact rfl
        | ok result =>
          refine ⟨?_, ?_⟩
          · rintro phase ⟨⟩
            trivial
          · rintro _ s rfl
            exact rfl

theorem obeys_pttTask :
    Obeys (pttProtocol config) (fun s _ => s = some .waiting) (some .waiting) (pttTask config) := by
  refine ⟨?_, ?_⟩
  · rintro phase ⟨⟩
    trivial
  · rintro event s rfl
    cases event with
    | none => exact rfl
    | some e =>
      by_cases hetype : e.etype ≠ EV_HOTKEY_PRESSED
      · have hnot : config.isPress e = false := by simp [DaemonConfig.isPress, hetype]
        show Obeys _ _ (some (if config.isPress e then PttPhase.pressed else .waiting))
          (if e.etype ≠ EV_HOTKEY_PRESSED then _ else _)
        rw [hnot, if_pos hetype]
        exact rfl
      · show Obeys _ _ (some (if config.isPress e then PttPhase.pressed else .waiting))
          (if e.etype ≠ EV_HOTKEY_PRESSED then _ else _)
        rw [if_neg hetype]
        exact obeys_enabled (by simpa using hetype)

theorem obeys_request {α : Type} (m : DaemonTask α) :
    Obeys (pttProtocol config) (fun _ _ => True) none m := by
  induction m with
  | done a => trivial
  | call e k ih =>
    refine ⟨?_, ?_⟩
    · rintro phase ⟨⟩
    · rintro r s rfl
      exact ih r

/-! ## What the worker is not done with -/

theorem Unreleased.sublist {l l' : List Published} (h : Unreleased config l) (hl : l'.Sublist l) :
    Unreleased config l' :=
  List.Pairwise.sublist hl h

theorem Idle.sublist {l l' : List Published} (h : Idle config l) (hl : l'.Sublist l) : Idle config l' :=
  fun p hp => h p (hl.subset hp)

/-- A release comes while no press is before the worker. -/
theorem Unreleased.concat {l : List Published} (h : Unreleased config l) {q : Published}
    (hq : config.isRelease q.event = true → ∀ p ∈ l, config.isPress p.event = false) :
    Unreleased config (l ++ [q]) := by
  refine List.pairwise_append.mpr ⟨h, List.pairwise_singleton _ _, ?_⟩
  intro p hp r hr hpress
  obtain rfl := List.mem_singleton.mp hr
  cases hrelease : config.isRelease r.event with
  | false => rfl
  | true =>
    rw [hq hrelease p hp] at hpress
    cases hpress

theorem Idle.concat {l : List Published} (h : Idle config l) {q : Published} (hq : q.during = false) :
    Idle config (l ++ [q]) := by
  intro p hp hpress
  rcases List.mem_append.mp hp with hp | hp
  · exact h p hp hpress
  · obtain rfl := List.mem_singleton.mp hp
    exact hq

/-! ## The invariant -/

/-- The press that the worker has at hand. -/
def AtHand (config : DaemonConfig) (d : Daemon) : Prop :=
  ∃ p, d.published[d.read - 1]? = some p ∧ config.isPress p.event = true ∧ 0 < d.read

structure PttInv (config : DaemonConfig) (g : Owner → Option PttPhase) (d : Daemon) : Prop where
  worker : g .ptt = some d.phase
  requests : ∀ i, g (.request i) = none
  read_le : d.read ≤ d.published.length
  hand : d.phase = .pressed ∨ d.phase = .checked → AtHand config d
  unreleased : d.phase ≠ .turning → Unreleased config d.pending
  idle : d.busy = false → Idle config d.pending
  enabled : d.phase = .checked → d.enabled = true
  claimed : d.phase = .turning → d.claims ≠ []
  claims : ∀ c ∈ d.claims, c.Held config
  only : OnlyHeld config d

variable {g : Owner → Option PttPhase}

theorem pending_sublist {n : Nat} (hn : d.tried ≤ n) : (d.published.drop n).Sublist d.pending := by
  obtain ⟨k, rfl⟩ := Nat.exists_eq_add_of_le hn
  rw [Daemon.pending, ← List.drop_drop]
  exact List.drop_sublist _ _

theorem tried_le_read : d.tried ≤ d.read := by
  unfold Daemon.tried
  split <;> omega

/-- What a capture of the worker is made for. -/
theorem OnlyHeld.capture (h : OnlyHeld config d) (hclaims : ∀ c ∈ d.claims, c.Held config)
    (hsome : d.claims ≠ []) : OnlyHeld config (d.capture .ptt) where
  held := by
    intro c hc
    obtain ⟨claim, rest, hlist⟩ := List.exists_cons_of_ne_nil hsome
    rcases List.mem_cons.mp hc with rfl | hc
    · have hmem : claim ∈ d.claims := by simp [hlist]
      exact ⟨claim, hmem, by simp [hlist], hclaims claim hmem⟩
    · exact h.held c hc
  idle := h.idle
  enabled := h.enabled

theorem OnlyHeld.beginTurn (h : OnlyHeld config d)
    (hidle : ∀ p, d.claim.press = some p → p.during = false) (henabled : d.enabled = true) :
    OnlyHeld config (d.beginTurn .ptt) where
  held := by
    intro c hc
    obtain ⟨claim, hclaim, heq, hheld⟩ := h.held c hc
    exact ⟨claim, List.mem_cons_of_mem _ hclaim, heq, hheld⟩
  idle := by
    intro c hc
    rcases List.mem_cons.mp hc with rfl | hc
    · exact hidle
    · exact h.idle c hc
  enabled := by
    intro c hc
    rcases List.mem_cons.mp hc with rfl | hc
    · exact henabled
    · exact h.enabled c hc

/-- What is known where the worker has no press at hand. -/
theorem PttInv.wait (h : PttInv config g d) {n : Nat} (hn : d.tried ≤ n)
    (hlength : n ≤ d.published.length) (hphase : d.phase ≠ .turning) :
    PttInv config (Function.update g .ptt (some .waiting)) ({ d with read := n }.setPhase .waiting) where
  worker := Function.update_self ..
  requests i := by simpa using h.requests i
  read_le := hlength
  hand hp := by rcases hp with hp | hp <;> cases hp
  unreleased _ := (h.unreleased hphase).sublist (pending_sublist hn)
  idle hbusy := (h.idle hbusy).sublist (pending_sublist hn)
  enabled hp := nomatch hp
  claimed hp := nomatch hp
  claims := h.claims
  only := ⟨h.only.held, h.only.idle, h.only.enabled⟩

/-- The worker reads a press. -/
theorem PttInv.press (h : PttInv config g d) (hphase : d.phase = .waiting) {p : Published}
    (hp : d.published[d.read]? = some p) (hpress : config.isPress p.event = true) :
    PttInv config (Function.update g .ptt (some .pressed))
      ({ d with read := d.read + 1 }.setPhase .pressed) where
  worker := Function.update_self ..
  requests i := by simpa using h.requests i
  read_le := (List.getElem?_eq_some_iff.mp hp).1
  hand _ := ⟨p, hp, hpress, Nat.succ_pos _⟩
  unreleased _ := by
    have hpending : d.pending = d.published.drop d.read := by simp [Daemon.pending, Daemon.tried, hphase]
    have hold := h.unreleased (by rw [hphase]; nofun)
    rwa [hpending] at hold
  idle hbusy := by
    have hpending : d.pending = d.published.drop d.read := by simp [Daemon.pending, Daemon.tried, hphase]
    have hold := h.idle hbusy
    rwa [hpending] at hold
  enabled hp := nomatch hp
  claimed hp := nomatch hp
  claims := h.claims
  only := ⟨h.only.held, h.only.idle, h.only.enabled⟩

/-- The worker has a press at hand, and the daemon is enabled. -/
theorem PttInv.check (h : PttInv config g d) (hphase : d.phase = .pressed) (hon : d.enabled = true) :
    PttInv config (Function.update g .ptt (some .checked)) (d.setPhase .checked) where
  worker := Function.update_self ..
  requests i := by simpa using h.requests i
  read_le := h.read_le
  hand _ := h.hand (.inl hphase)
  unreleased _ := by
    have hold := h.unreleased (by rw [hphase]; nofun)
    rwa [Daemon.pending, Daemon.tried, hphase] at hold
  idle hbusy := by
    have hold := h.idle hbusy
    rwa [Daemon.pending, Daemon.tried, hphase] at hold
  enabled _ := hon
  claimed hp := nomatch hp
  claims := h.claims
  only := ⟨h.only.held, h.only.idle, h.only.enabled⟩

/-- What the worker claims the slot for, when no turn runs. -/
theorem PttInv.claim_held (h : PttInv config g d) (hphase : d.phase = .checked) (hbusy : d.busy = false) :
    d.claim.Held config ∧ ∀ p, d.claim.press = some p → p.during = false := by
  obtain ⟨p, hp, hpress, hpos⟩ := h.hand (.inr hphase)
  have hread : d.read - 1 + 1 = d.read := Nat.sub_add_cancel hpos
  obtain ⟨hlt, hget⟩ := List.getElem?_eq_some_iff.mp hp
  have hpending : d.pending = p :: d.published.drop d.read := by
    simp only [Daemon.pending, Daemon.tried, hphase]
    rw [List.drop_eq_getElem_cons hlt, hget, hread]
  have hunreleased := h.unreleased (by rw [hphase]; nofun)
  have hidle := h.idle hbusy
  rw [hpending] at hunreleased hidle
  constructor
  · exact ⟨⟨p, hp, hpress⟩, fun q hq => (List.pairwise_cons.mp hunreleased).1 q hq hpress⟩
  · intro q hq
    obtain rfl := Option.some.inj (hp.symm.trans hq)
    exact hidle p List.mem_cons_self hpress

theorem PttInv.begin (h : PttInv config g d) (hphase : d.phase = .checked) (hbusy : d.busy = false) :
    PttInv config (Function.update g .ptt (some .turning)) ((d.beginTurn .ptt).setPhase .turning) := by
  obtain ⟨hheld, hidle⟩ := h.claim_held hphase hbusy
  have honly := h.only.beginTurn hidle (h.enabled hphase)
  exact {
    worker := Function.update_self ..
    requests := fun i => by simpa using h.requests i
    read_le := h.read_le
    hand := fun hp => by rcases hp with hp | hp <;> cases hp
    unreleased := fun hp => absurd rfl hp
    idle := fun hb => nomatch hb
    enabled := fun hp => nomatch hp
    claimed := fun _ => List.cons_ne_nil _ _
    claims := by
      intro c hc
      rcases List.mem_cons.mp hc with rfl | hc
      · exact hheld
      · exact h.claims c hc
    only := ⟨honly.held, honly.idle, honly.enabled⟩ }

/-- The worker is in its turn and reads on. -/
theorem PttInv.turning (h : PttInv config g d) (hphase : d.phase = .turning) {n : Nat} (hn : d.read ≤ n)
    (hlength : n ≤ d.published.length) :
    PttInv config (Function.update g .ptt (some .turning)) ({ d with read := n }.setPhase .turning) where
  worker := Function.update_self ..
  requests i := by simpa using h.requests i
  read_le := hlength
  hand hp := by rcases hp with hp | hp <;> cases hp
  unreleased hp := absurd rfl hp
  idle hbusy := (h.idle hbusy).sublist (pending_sublist (tried_le_read.trans hn))
  enabled hp := nomatch hp
  claimed _ := h.claimed hphase
  claims := h.claims
  only := ⟨h.only.held, h.only.idle, h.only.enabled⟩

/-- The invariant is about the events, the slot and what the worker has done. -/
theorem PttInv.congr (h : PttInv config g d) (hpublished : d'.published = d.published)
    (hread : d'.read = d.read) (henabled : d'.enabled = d.enabled)
    (hbusy : d'.busy = false → d.busy = false) (hphase : d'.phase = d.phase)
    (hclaims : d'.claims = d.claims) (hcaptures : d'.captures = d.captures) : PttInv config g d' where
  worker := by rw [hphase, h.worker]
  requests := h.requests
  read_le := by rw [hread, hpublished]; exact h.read_le
  hand := by rw [hphase, AtHand, hpublished, hread]; exact h.hand
  unreleased := by
    rw [hphase, Daemon.pending, Daemon.tried, hphase, hpublished, hread]
    exact h.unreleased
  idle hb := by
    rw [Daemon.pending, Daemon.tried, hphase, hpublished, hread]
    exact h.idle (hbusy hb)
  enabled := by rw [hphase, henabled]; exact h.enabled
  claimed := by rw [hphase, hclaims]; exact h.claimed
  claims := by rw [hclaims]; exact h.claims
  only := by
    constructor
    · rw [hcaptures, hclaims]
      exact h.only.held
    · rw [hclaims]
      exact h.only.idle
    · rw [hclaims]
      exact h.only.enabled

theorem PttInv.endTurn (h : PttInv config g d) (hidle : Idle config d.pending) (result : TurnResult) :
    PttInv config g (d.endTurn result) where
  worker := h.worker
  requests := h.requests
  read_le := h.read_le
  hand := h.hand
  unreleased := h.unreleased
  idle _ := hidle
  enabled := h.enabled
  claimed := h.claimed
  claims := h.claims
  only := ⟨h.only.held, h.only.idle, h.only.enabled⟩

/-- The worker has done its turn. -/
theorem PttInv.done (h : PttInv config g d) (hphase : d.phase = .turning)
    (hunreleased : Unreleased config d.pending) (hidle : Idle config d.pending) (result : TurnResult) :
    PttInv config (Function.update g .ptt (some .waiting)) ((d.endTurn result).setPhase .waiting) := by
  have hpending : d.pending = d.published.drop d.read := by simp [Daemon.pending, Daemon.tried, hphase]
  rw [hpending] at hunreleased hidle
  exact {
    worker := Function.update_self ..
    requests := fun i => by simpa using h.requests i
    read_le := h.read_le
    hand := fun hp => by rcases hp with hp | hp <;> cases hp
    unreleased := fun _ => hunreleased
    idle := fun _ => hidle
    enabled := fun hp => nomatch hp
    claimed := fun hp => nomatch hp
    claims := h.claims
    only := ⟨h.only.held, h.only.idle, h.only.enabled⟩ }

/-! ## Steps of the worker -/

theorem read_le_position : d.read ≤ d.position := le_max_left ..

theorem position_le (h : d.read ≤ d.published.length) : d.position ≤ d.published.length :=
  max_le h (Nat.sub_le ..)

/-- What the wait for the release leaves unread. -/
theorem awaitRelease_cases {r : Except String Unit} (hread : d.read ≤ d.published.length)
    (h : d.awaitRelease config = some (r, d')) :
    ∃ n, d.read ≤ n ∧ n ≤ d.published.length ∧ d' = { d with read := n } := by
  unfold Daemon.awaitRelease at h
  split at h
  · rename_i n hn
    obtain ⟨rfl, rfl⟩ := Prod.mk.inj (Option.some.inj h)
    obtain ⟨hlt, -⟩ := List.findIdx?_eq_some_iff_getElem.mp hn
    rw [List.length_drop] at hlt
    have hle := read_le_position (d := d)
    exact ⟨_, by omega, by omega, rfl⟩
  · split_ifs at h
    obtain ⟨rfl, rfl⟩ := Prod.mk.inj (Option.some.inj h)
    exact ⟨_, hread, le_refl _, rfl⟩

/-- An effect in the turn of the worker. -/
theorem PttInv.inner (h : PttInv config g d) (hphase : d.phase = .turning) {e : TurnEffect}
    (he : Inner e) {r : e.Reply} (hserve : d.answer config .ptt (.turn e) = some (r, d')) :
    PttInv config (Function.update g .ptt (some .turning)) (d'.setPhase .turning) := by
  have hstay := h.turning hphase (le_refl _) h.read_le
  cases e with
  | tryBeginTurn => cases he
  | endTurn result => cases he
  | waitForRelease =>
    obtain ⟨n, hn, hlength, rfl⟩ := awaitRelease_cases h.read_le hserve
    exact h.turning hphase hn hlength
  | setCapturing on =>
    obtain ⟨-, rfl⟩ := Prod.mk.inj (Option.some.inj hserve)
    exact hstay.congr rfl rfl rfl id rfl rfl rfl
  | call call =>
    cases call with
    | mic_start target stream_id sample_rate_hz num_channels chunk_ms =>
      obtain ⟨-, rfl⟩ := Prod.mk.inj (Option.some.inj hserve)
      have honly := h.only.capture h.claims (h.claimed hphase)
      exact { hstay with
        read_le := h.read_le
        unreleased := fun hp => absurd rfl hp
        idle := hstay.idle
        claims := h.claims
        only := ⟨honly.held, honly.idle, honly.enabled⟩ }
    | _ =>
      obtain ⟨-, rfl⟩ := Prod.mk.inj (Option.some.inj hserve)
      exact hstay
  | _ =>
    obtain ⟨-, rfl⟩ := Prod.mk.inj (Option.some.inj hserve)
    exact hstay

/-- The worker reads the next event. -/
theorem PttInv.receive (h : PttInv config g d) (hphase : d.phase = .waiting) {r : Option BusEvent}
    (hserve : d.receive = some (r, d')) :
    PttInv config (Function.update g .ptt (some (d.phase.next config .recv r)))
      (d'.setPhase (d.phase.next config .recv r)) := by
  have htried : d.tried ≤ d.read := tried_le_read
  have hwaits : d.phase ≠ .turning := by rw [hphase]; nofun
  unfold Daemon.receive at hserve
  split_ifs at hserve with hlag
  · obtain ⟨rfl, rfl⟩ := Prod.mk.inj (Option.some.inj hserve)
    exact h.wait (htried.trans read_le_position) (position_le h.read_le) hwaits
  · obtain ⟨p, hp, heq⟩ := Option.map_eq_some_iff.mp hserve
    obtain ⟨rfl, rfl⟩ := Prod.mk.inj heq
    have hlt : d.read < d.published.length := (List.getElem?_eq_some_iff.mp hp).1
    by_cases hpress : config.isPress p.event = true
    · rw [PttPhase.next, if_pos hpress]
      exact h.press hphase hp hpress
    · rw [PttPhase.next, if_neg hpress]
      exact h.wait (by omega) hlt hwaits

/-- A step of the worker. At the end of its turn no press that came meanwhile is before it. -/
theorem inv_worker (h : PttInv config g d) {e : DaemonEffect} {r : e.Reply} (he : d.phase.Allowed e)
    (hserve : d.serve config .ptt e = some (r, d'))
    (hcond : Attentive config d (.step (.act .ptt e r))) :
    PttInv config (Function.update g .ptt (some (d.phase.next config e r))) d' := by
  obtain ⟨⟨r', d₁⟩, hanswer, heq⟩ := Option.map_eq_some_iff.mp hserve
  obtain ⟨rfl, rfl⟩ := Prod.mk.inj heq
  rw [if_pos rfl]
  have hsame : d.phase ≠ .turning →
      PttInv config (Function.update g .ptt (some .waiting)) (d.setPhase .waiting) :=
    fun hphase => h.wait tried_le_read h.read_le hphase
  cases hphase : d.phase with
  | waiting =>
    rw [hphase] at hsame
    cases e with
    | recv =>
      have hreceive : d.receive = some (r', d₁) := hanswer
      have hstep := h.receive hphase hreceive
      rwa [hphase] at hstep
    | enabled =>
      obtain ⟨rfl, rfl⟩ := Prod.mk.inj (Option.some.inj hanswer)
      rw [PttPhase.next, if_neg fun hp => nomatch hp.1]
      exact hsame nofun
    | turn e =>
      rw [hphase] at he
      exact he.elim
    | send result =>
      obtain ⟨-, rfl⟩ := Prod.mk.inj (Option.some.inj hanswer)
      exact hsame nofun
  | pressed =>
    rw [hphase] at he hsame
    cases e with
    | enabled =>
      obtain ⟨rfl, rfl⟩ := Prod.mk.inj (Option.some.inj hanswer)
      by_cases hon : d.enabled = true
      · rw [PttPhase.next, if_pos ⟨rfl, hon⟩]
        exact h.check hphase hon
      · rw [PttPhase.next, if_neg fun hp => hon hp.2]
        exact hsame nofun
    | _ => exact he.elim
  | checked =>
    rw [hphase] at he hsame
    cases e with
    | turn e =>
      cases e with
      | tryBeginTurn =>
        have hbegin : (if d.busy then some (false, d) else some (true, d.beginTurn .ptt)) =
          some (r', d₁) := hanswer
        split_ifs at hbegin with hbusy
        · obtain ⟨rfl, rfl⟩ := Prod.mk.inj (Option.some.inj hbegin)
          exact hsame nofun
        · obtain ⟨rfl, rfl⟩ := Prod.mk.inj (Option.some.inj hbegin)
          exact h.begin hphase (by simpa using hbusy)
      | _ => exact he.elim
    | _ => exact he.elim
  | turning =>
    rw [hphase] at he
    cases e with
    | turn e =>
      cases e with
      | tryBeginTurn => exact he.elim
      | endTurn result =>
        obtain ⟨-, rfl⟩ := Prod.mk.inj (Option.some.inj hanswer)
        exact h.done hphase hcond.1 hcond.2 result
      | _ =>
        refine h.inner hphase ?_ hanswer
        trivial
    | _ => exact he.elim

/-! ## The other steps -/

/-- What a request does leaves the worker as it is. A turn that it ends leaves no press that came
    meanwhile. -/
theorem inv_request (h : PttInv config g d) {i : Nat} {e : DaemonEffect} {r : e.Reply}
    (hserve : d.serve config (.request i) e = some (r, d'))
    (hcond : Attentive config d (.step (.act (.request i) e r))) :
    PttInv config (Function.update g (.request i) none) d' := by
  have hg : Function.update g (.request i) none = g := by
    rw [← h.requests i, Function.update_eq_self]
  rw [hg]
  obtain ⟨⟨r', d₁⟩, hanswer, heq⟩ := Option.map_eq_some_iff.mp hserve
  obtain ⟨rfl, rfl⟩ := Prod.mk.inj heq
  rw [if_neg nofun]
  cases e with
  | recv => cases hanswer
  | enabled =>
    obtain ⟨-, rfl⟩ := Prod.mk.inj (Option.some.inj hanswer)
    exact h
  | send result =>
    obtain ⟨-, rfl⟩ := Prod.mk.inj (Option.some.inj hanswer)
    exact h
  | turn e =>
    cases e with
    | tryBeginTurn =>
      have hbegin : (if d.busy then some (false, d) else some (true, d.beginTurn (.request i))) =
        some (r', d₁) := hanswer
      split_ifs at hbegin
      · obtain ⟨-, rfl⟩ := Prod.mk.inj (Option.some.inj hbegin)
        exact h
      · obtain ⟨-, rfl⟩ := Prod.mk.inj (Option.some.inj hbegin)
        exact h.congr rfl rfl rfl (fun hb => nomatch hb) rfl rfl rfl
    | endTurn result =>
      obtain ⟨-, rfl⟩ := Prod.mk.inj (Option.some.inj hanswer)
      exact h.endTurn hcond.2 result
    | waitForRelease => cases hanswer
    | setCapturing on =>
      obtain ⟨-, rfl⟩ := Prod.mk.inj (Option.some.inj hanswer)
      exact h.congr rfl rfl rfl id rfl rfl rfl
    | call call =>
      cases call <;>
      · obtain ⟨-, rfl⟩ := Prod.mk.inj (Option.some.inj hanswer)
        exact h.congr rfl rfl rfl id rfl rfl rfl
    | _ =>
      obtain ⟨-, rfl⟩ := Prod.mk.inj (Option.some.inj hanswer)
      exact h

/-- An event comes: not a release while a press is before the worker, unless it is in its turn. -/
theorem PttInv.publish (h : PttInv config g d) {e : BusEvent}
    (hcond : Attentive config d (.step (.env (.publish e)))) :
    PttInv config g (d.input (.publish e)) := by
  have hread : d.tried ≤ d.published.length := tried_le_read.trans h.read_le
  have hpending : (d.input (.publish e)).pending = d.pending ++ [{ event := e, during := d.busy }] :=
    List.drop_append_of_le_length hread
  exact {
    worker := h.worker
    requests := h.requests
    read_le := h.read_le.trans (by simp [Daemon.input])
    hand := by
      intro hp
      obtain ⟨p, hget, hpress, hpos⟩ := h.hand hp
      have hlt := (List.getElem?_eq_some_iff.mp hget).1
      exact ⟨p, (List.getElem?_append_left hlt).trans hget, hpress, hpos⟩
    unreleased := by
      intro hp
      rw [hpending]
      refine (h.unreleased hp).concat fun hrelease => ?_
      rcases hcond hrelease with hturn | hnone
      · exact absurd hturn hp
      · exact hnone
    idle := by
      intro hbusy
      rw [hpending]
      exact (h.idle hbusy).concat hbusy
    enabled := h.enabled
    claimed := h.claimed
    claims := h.claims
    only := ⟨h.only.held, h.only.idle, h.only.enabled⟩ }

/-- The daemon is enabled or disabled, not just before the worker claims the slot. -/
theorem PttInv.set_enabled (h : PttInv config g d) {on : Bool}
    (hcond : Attentive config d (.step (.env (.set_enabled on)))) :
    PttInv config g (d.input (.set_enabled on)) where
  worker := h.worker
  requests := h.requests
  read_le := h.read_le
  hand := h.hand
  unreleased := h.unreleased
  idle := h.idle
  enabled hp := by
    rcases hcond with hon | hnot
    · exact hon
    · exact absurd hp hnot
  claimed := h.claimed
  claims := h.claims
  only := ⟨h.only.held, h.only.idle, h.only.enabled⟩

theorem inv_input (h : PttInv config g d) {l : PttInput} (hcond : Attentive config d (.step (.env l))) :
    PttInv config g (d.input l) := by
  cases l with
  | publish e => exact h.publish hcond
  | set_enabled on => exact h.set_enabled hcond
  | turn l => exact h.congr rfl rfl rfl id rfl rfl rfl

/-! ## Whole runs -/

/-- What a task ends with. -/
def Ended : Owner → Option PttPhase → Prop
  | .ptt, s => s = some .waiting
  | .request _, _ => True

abbrev DaemonInv (config : DaemonConfig) (p : PttPool) : Prop :=
  PoolInv (ℓ := PttInput) (pttProtocol config) (fun o s _ => Ended o s) (fun g _ d => PttInv config g d)
    [] p

variable {enabled : Bool} {requests : Nat → TurnRequest}

theorem inv_start : DaemonInv config (.start config enabled requests) := by
  refine ⟨fun o => if o = .ptt then some .waiting else none, ?_, ?_⟩
  · exact {
      worker := rfl
      requests := fun i => rfl
      read_le := le_refl 0
      hand := fun hp => by rcases hp with hp | hp <;> cases hp
      unreleased := fun _ => .nil
      idle := fun _ _ hp => nomatch hp
      enabled := fun hp => nomatch hp
      claimed := fun hp => nomatch hp
      claims := fun _ hc => nomatch hc
      only := ⟨fun _ hc => (nomatch hc), fun _ hc => (nomatch hc), fun _ hc => (nomatch hc)⟩ }
  · intro o
    cases o with
    | ptt => exact obeys_pttTask
    | request i => exact obeys_request _

theorem inv_step {p p' : PttPool} {l : PttLabel} (h : DaemonInv config p)
    (hstep : PttStep config p l p') (hcond : Attentive config p.world l) : DaemonInv config p' := by
  cases hstep with
  | again hdone =>
    obtain ⟨g, hI, hobeys⟩ := h
    refine ⟨g, hI, fun o => ?_⟩
    cases o with
    | ptt =>
      have hwaiting : g .ptt = some .waiting := by
        have hend := hobeys .ptt
        rw [hdone] at hend
        exact hend
      show Obeys _ _ (g .ptt) (Function.update p.tasks .ptt (pttTask config) .ptt)
      rw [Function.update_self, hwaiting]
      exact obeys_pttTask
    | request i =>
      have hother : Owner.request i ≠ .ptt := nofun
      show Obeys _ _ (g (.request i)) (Function.update p.tasks .ptt (pttTask config) (.request i))
      rw [Function.update_of_ne hother]
      exact hobeys (.request i)
  | step hpool =>
    have hstep := hpool.where (fun d l => Attentive config d (.step l)) hcond
    refine PoolInv.step ?_ ?_ (show DaemonInv config p from h) hstep
    · rintro g _ d o e r d' hI hallowed ⟨hserve, hc⟩
      refine ⟨_, rfl, ?_⟩
      cases o with
      | ptt =>
        rw [hI.worker]
        exact inv_worker hI (hallowed _ hI.worker) hserve hc
      | request i =>
        rw [hI.requests i]
        exact inv_request hI hserve hc
    · rintro g _ d l d' hI ⟨rfl, hc⟩
      exact inv_input hI hc

/-- In a run in which the worker is attentive, it opens the microphone only for a held key. -/
theorem microphone_opens_for_held_key (config : DaemonConfig) (enabled : Bool)
    (requests : Nat → TurnRequest) {trace : List PttLabel} {p : PttPool}
    (hr : Run (Where (fun p l => Attentive config p.world l) (PttStep config))
      (.start config enabled requests) trace p) : OnlyHeld config p.world := by
  have hinv := hr.invariant_state (I := DaemonInv config) inv_start
    fun p l p' h hl => inv_step h hl.1 hl.2
  obtain ⟨g, hI, -⟩ := hinv
  exact hI.only

/-! ## Two runs -/

def keyEvent (etype : String) : BusEvent where
  etype
  payload := .obj [("binding", .str "ptt")]

def pressed : PttMove := .input (.publish (keyEvent EV_HOTKEY_PRESSED))

def released : PttMove := .input (.publish (keyEvent EV_HOTKEY_RELEASED))

/-- The next calls are answered with a payload. -/
def answered (payload : Json) : PttMove :=
  .input (.turn { reply := (.ok payload, none), speech_end := .Silent, context := "", expired := false })

/-- The worker reads a press and opens the microphone. -/
def opening : List PttMove := [answered Turn.named] ++ List.replicate 6 (.act .ptt)

/-- The key is released, and the capture is closed. -/
def closing : List PttMove := [answered Turn.silence] ++ List.replicate 3 (.act .ptt)

/-- Nothing was said, so that the turn ends, and the worker goes around its loop. -/
def silent : List PttMove := List.replicate 5 (.act .ptt) ++ [.again]

/-- The key is held once. -/
def heldOnce : List PttMove := [pressed] ++ opening ++ [released] ++ closing ++ silent

theorem microphone_opens_for_held_key_sample :
    ∃ p : PttPool, p.world.captures.length = 1 ∧ p.world.turns_completed = 1 ∧ OnlyHeld {} p.world := by
  have hrun : ((runPttMoves (Attentive {}) heldOnce).map fun res =>
      (res.2.world.captures.length, res.2.world.turns_completed)) = some (1, 1) := by decide
  obtain ⟨res, hres, hcounts⟩ := Option.map_eq_some_iff.mp hrun
  obtain ⟨hcaptures, hturns⟩ := Prod.mk.inj hcounts
  exact ⟨res.2, hcaptures, hturns, microphone_opens_for_held_key {} true _ (run_runPttMoves hres)⟩

/-- The key is tapped while the turn thinks. -/
def tappedMeanwhile : List PttMove :=
  [pressed] ++ opening ++ [released] ++ closing ++ [pressed, released] ++ silent ++ opening

/-- The press of a turn's time is read after it, and the microphone is opened though the key is up. -/
theorem stale_press_opens_the_microphone :
    ¬ ∀ (trace : List PttLabel) (p : PttPool), Run (PttStep {}) (.start {} true fun _ => {}) trace p →
      OnlyHeld {} p.world := by
  intro hall
  have hrun : ((runPttMoves (fun _ _ => True) tappedMeanwhile).map fun res =>
      res.2.world.claims.head?.any fun c => c.press.any fun p => p.during) = some true := by
    decide
  obtain ⟨res, hres, hany⟩ := Option.map_eq_some_iff.mp hrun
  have honly := hall res.1 res.2 ((run_runPttMoves hres).mono fun _ _ _ hl => hl.1)
  obtain ⟨c, hc, hpress⟩ := (Option.any_eq_true _ _).mp hany
  obtain ⟨p, hp, hduring⟩ := (Option.any_eq_true _ _).mp hpress
  have hidle := honly.idle c (List.mem_of_mem_head? hc) p hp
  rw [hidle] at hduring
  cases hduring

end Audio
