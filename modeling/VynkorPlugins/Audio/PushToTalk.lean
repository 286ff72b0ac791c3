import VynkorPlugins.Audio.Turn

/-!
# Push to talk

The worker that waits for the hotkey (`ptt_task`), beside the turns that are asked for, over one slot.
It reads the bus through one receiver for its whole life: what is published while it thinks and speaks
is read after that.
-/

namespace Audio

open Async

/-! ## The worker -/

/-- The effects of a task of the daemon: those of a turn, and those of the worker itself. -/
inductive DaemonEffect
  | recv
  | enabled
  | turn (e : TurnEffect)
  | send (result : TurnResult)

/-- An event, or none where the receiver lags. -/
abbrev DaemonEffect.Reply : DaemonEffect → Type
  | .recv => Option BusEvent
  | .enabled => Bool
  | .turn e => e.Reply
  | .send _ => Unit

abbrev DaemonTask (α : Type) : Type := Async DaemonEffect DaemonEffect.Reply α

namespace DaemonTask

def effect (e : DaemonEffect) : DaemonTask e.Reply := perform e

/-- A turn within a task of the daemon. -/
def ofTurn {α : Type} : Turn α → DaemonTask α
  | .done a => .done a
  | .call e k => .call (.turn e) fun r => ofTurn (k r)

end DaemonTask

open DaemonTask

/-- The payload names the key of the daemon. -/
def DaemonConfig.bound (config : DaemonConfig) (e : BusEvent) : Bool :=
  (e.payload.get "binding").bind Json.asStr = some config.ptt_binding

/-- The key of the daemon is pressed. -/
def DaemonConfig.isPress (config : DaemonConfig) (e : BusEvent) : Bool :=
  config.bound e ∧ e.etype = EV_HOTKEY_PRESSED

/-- Once around the loop of `ptt_task`. -/
def pttTask (config : DaemonConfig) : DaemonTask Unit := do
  match ← effect .recv with
  | none => return ()
  | some e =>
    if e.etype ≠ EV_HOTKEY_PRESSED then return ()
    else if (← effect .enabled) = false then return ()
    else if config.bound e = false then return ()
    else
      match ← ofTurn (Turn.turn config .ptt) with
      | .error _ => return ()
      | .ok result => effect (.send result)

/-! ## The daemon -/

/-- An event of the bus, and whether a turn ran when it came. -/
structure Published where
  event : BusEvent
  during : Bool

/-- The worker gets the slot: for what it has read last, after what has been published since. -/
structure PttClaim where
  press : Option Published
  since : List Published
  enabled : Bool

/-- Where the worker is. -/
inductive PttPhase
  /-- It has no press at hand. -/
  | waiting
  /-- It has read a press, -/
  | pressed
  /-- and has seen that the daemon is enabled. -/
  | checked
  | turning
  deriving DecidableEq

/-- Who has the slot: the worker, or a request. -/
inductive Owner
  | ptt
  | request (i : Nat)
  deriving DecidableEq

/-- The state of the daemon and what the calls of its turns are answered with next. Beside them stand
    where the worker is, what it has claimed the slot for, and for which claim it has opened the
    microphone; nothing reads these. -/
structure Daemon where
  /-- All that has been published since the worker subscribed, -/
  published : List Published := []
  /-- and how much of it the receiver has passed. -/
  read : Nat := 0
  enabled : Bool
  busy : Bool := false
  capturing : Bool := false
  turns_completed : Nat := 0
  last_turn : Option TurnResult := none
  reply : Except String Json × Option String := (.error "", none)
  speech_end : SpeechEnd := .Silent
  context : String := ""
  /-- Nothing has come for as long as a key may be held. -/
  expired : Bool := false
  phase : PttPhase := .waiting
  claims : List PttClaim := []
  captures : List (Option PttClaim) := []

/-- How many events the bus retains. -/
def Bus.capacity : Nat := 128

def PttPhase.next (config : DaemonConfig) (phase : PttPhase) : (e : DaemonEffect) → e.Reply → PttPhase
  | .recv, some e => if config.isPress e then .pressed else .waiting
  | .recv, none => .waiting
  | .enabled, on => if phase = .pressed ∧ on = true then .checked else .waiting
  | .turn .tryBeginTurn, got => if got = true then .turning else .waiting
  | .turn (.endTurn _), _ => .waiting
  | .turn _, _ => phase
  | .send _, _ => phase

namespace Daemon

variable (config : DaemonConfig) (d : Daemon)

/-- Where the receiver reads on. What the bus does not retain is lost for it. -/
def position : Nat := max d.read (d.published.length - Bus.capacity)

/-- How much the worker is done with: it is not done with a press at hand. -/
def tried : Nat :=
  match d.phase with
  | .pressed | .checked => d.read - 1
  | .waiting | .turning => d.read

def pending : List Published := d.published.drop d.tried

/-- The press that the worker has at hand. -/
def claim : PttClaim where
  press := d.published[d.read - 1]?
  since := d.published.drop d.read
  enabled := d.enabled

def beginTurn (o : Owner) : Daemon :=
  { d with busy := true, claims := if o = .ptt then d.claim :: d.claims else d.claims }

def endTurn (result : TurnResult) : Daemon :=
  { d with busy := false, turns_completed := d.turns_completed + 1, last_turn := some result }

/-- The microphone is opened. -/
def capture (o : Owner) : Daemon :=
  { d with captures := if o = .ptt then d.claims.head? :: d.captures else d.captures }

/-- The next event of the receiver. -/
def receive : Option (Option BusEvent × Daemon) :=
  if d.read < d.position then some (none, { d with read := d.position })
  else d.published[d.read]?.map fun p => (some p.event, { d with read := d.read + 1 })

/-- `releaseLoop`, as one step: the receiver passes all up to the release, or all that there is. -/
def awaitRelease : Option (Except String Unit × Daemon) :=
  match (d.published.drop d.position).findIdx? fun p => config.isRelease p.event with
  | some n => some (.ok (), { d with read := d.position + n + 1 })
  | none =>
    if d.expired then
      some (.error "hotkey release never arrived (max hold elapsed)",
        { d with read := d.published.length })
    else none

/-- What an effect of a turn is answered. The receiver is that of the worker. -/
def serveTurn (o : Owner) : (e : TurnEffect) → Daemon → Option (e.Reply × Daemon)
  | .call (.mic_start ..), d => some (d.reply, d.capture o)
  | .call _, d => some (d.reply, d)
  | .sleep _, d => some ((), d)
  | .waitForSpeechEnd, d => some (d.speech_end, d)
  | .waitForRelease, d => if o = .ptt then d.awaitRelease config else none
  | .setCapturing on, d => some ((), { d with capturing := on })
  | .recentContext, d => some (d.context, d)
  | .rememberExchange _ _, d => some ((), d)
  | .tryBeginTurn, d => if d.busy then some (false, d) else some (true, d.beginTurn o)
  | .endTurn result, d => some ((), d.endTurn result)

/-- What an effect of a task is answered, and what becomes of the daemon; an effect that is not answered
    waits. -/
def answer (o : Owner) : (e : DaemonEffect) → Daemon → Option (e.Reply × Daemon)
  | .recv, d => if o = .ptt then d.receive else none
  | .enabled, d => some (d.enabled, d)
  | .turn e, d => d.serveTurn config o e
  | .send _, d => some ((), d)

def setPhase (phase : PttPhase) : Daemon := { d with phase }

def serve (o : Owner) (e : DaemonEffect) : Option (e.Reply × Daemon) :=
  (d.answer config o e).map fun res =>
    (res.1, if o = .ptt then res.2.setPhase (d.phase.next config e res.1) else res.2)

end Daemon

/-! ## Steps -/

/-- What changes by itself. -/
structure PttWeather where
  reply : Except String Json × Option String
  speech_end : SpeechEnd
  context : String
  expired : Bool

/-- What comes from outside: an event of the bus, a `daemon_enable` or `daemon_disable`. -/
inductive PttInput where
  | publish (event : BusEvent)
  | set_enabled (on : Bool)
  | turn (l : PttWeather)

def Daemon.input (d : Daemon) : PttInput → Daemon
  | .publish event => { d with published := d.published ++ [{ event, during := d.busy }] }
  | .set_enabled on => { d with enabled := on }
  | .turn l =>
    { d with reply := l.reply, speech_end := l.speech_end, context := l.context, expired := l.expired }

def DaemonHandle (config : DaemonConfig) (o : Owner) (d : Daemon) (e : DaemonEffect) (r : e.Reply)
    (d' : Daemon) : Prop :=
  d.serve config o e = some (r, d')

def DaemonEnv (d : Daemon) (l : PttInput) (d' : Daemon) : Prop := d' = d.input l

abbrev PttPool := Pool Owner DaemonEffect DaemonEffect.Reply Unit Daemon

/-- A step of a task or from outside, or the worker goes around its loop. -/
inductive PttLabel
  | step (l : PoolLabel Owner DaemonEffect DaemonEffect.Reply PttInput)
  | again

inductive PttStep (config : DaemonConfig) : PttPool → PttLabel → PttPool → Prop
  | step {p p' : PttPool} {l : PoolLabel Owner DaemonEffect DaemonEffect.Reply PttInput}
      (h : PoolStep (DaemonHandle config) DaemonEnv p l p') : PttStep config p (.step l) p'
  | again {p : PttPool} (h : p.tasks .ptt = .done ()) :
      PttStep config p .again { p with tasks := Function.update p.tasks .ptt (pttTask config) }

/-- A `daemon_turn`: its text, and whether it has the bus. -/
structure TurnRequest where
  text : Option String := none
  bus : Bool := true

/-- The worker has subscribed, and no request has begun. -/
def PttPool.start (config : DaemonConfig) (enabled : Bool) (requests : Nat → TurnRequest) : PttPool where
  tasks
    | .ptt => pttTask config
    | .request i =>
      ofTurn (Turn.turn config (.action (requests i).text (requests i).bus)) >>= fun _ => .done ()
  world := { enabled }

/-! ## The key is held -/

/-- The slot was claimed for a press that was not followed by its release. -/
def PttClaim.Held (config : DaemonConfig) (c : PttClaim) : Prop :=
  (∃ p, c.press = some p ∧ config.isPress p.event = true) ∧
    ∀ p ∈ c.since, config.isRelease p.event = false

/-- The microphone is opened only for a held key. -/
structure OnlyHeld (config : DaemonConfig) (d : Daemon) : Prop where
  /-- A capture of the worker belongs to a press that was held when the slot was claimed, -/
  held : ∀ c ∈ d.captures, ∃ claim ∈ d.claims, c = some claim ∧ claim.Held config
  /-- no turn of the worker is begun for a press that came while a turn ran, -/
  idle : ∀ c ∈ d.claims, ∀ p, c.press = some p → p.during = false
  /-- or while the daemon is disabled. -/
  enabled : ∀ c ∈ d.claims, c.enabled = true

/-- No press is followed by its release. -/
def Unreleased (config : DaemonConfig) (l : List Published) : Prop :=
  l.Pairwise fun p r => config.isPress p.event = true → config.isRelease r.event = false

/-- No press came while a turn ran. -/
def Idle (config : DaemonConfig) (l : List Published) : Prop :=
  ∀ p ∈ l, config.isPress p.event = true → p.during = false

instance (config : DaemonConfig) (l : List Published) : Decidable (Unreleased config l) := by
  unfold Unreleased
  infer_instance

instance (config : DaemonConfig) (l : List Published) : Decidable (Idle config l) := by
  unfold Idle
  infer_instance

/-- When a turn ends, the worker has none of the presses before it that came while it ran or were
    followed by their release; the key is released only while the worker has no press before it or has
    the slot itself; and the daemon is not disabled just before the worker claims the slot. -/
def Attentive (config : DaemonConfig) (d : Daemon) : PttLabel → Prop
  | .step (.act _ (.turn (.endTurn _)) _) => Unreleased config d.pending ∧ Idle config d.pending
  | .step (.env (.publish e)) =>
    config.isRelease e = true →
      d.phase = .turning ∨ ∀ p ∈ d.pending, config.isPress p.event = false
  | .step (.env (.set_enabled on)) => on = true ∨ d.phase ≠ .checked
  | _ => True

instance (config : DaemonConfig) (d : Daemon) (l : PttLabel) : Decidable (Attentive config d l) := by
  unfold Attentive
  split <;> infer_instance

/-! ## Runs that are computed -/

/-- The next effect of a task, something from outside, or the loop of the worker. -/
inductive PttMove where
  | act (o : Owner)
  | input (l : PttInput)
  | again

def pttMove (config : DaemonConfig) (cond : Daemon → PttLabel → Prop) [∀ d l, Decidable (cond d l)]
    (p : PttPool) : PttMove → Option (PttLabel × PttPool)
  | .act o =>
    match p.tasks o with
    | .done _ => none
    | .call e k =>
      match p.world.serve config o e with
      | none => none
      | some (r, d) =>
        if cond p.world (.step (.act o e r)) then
          some (.step (.act o e r), { tasks := Function.update p.tasks o (k r), world := d })
        else none
  | .input l =>
    if cond p.world (.step (.env l)) then
      some (.step (.env l), { p with world := p.world.input l })
    else none
  | .again =>
    match p.tasks .ptt with
    | .done () =>
      if cond p.world .again then
        some (.again, { p with tasks := Function.update p.tasks .ptt (pttTask config) })
      else none
    | .call _ _ => none

theorem step_pttMove {config : DaemonConfig} {cond : Daemon → PttLabel → Prop}
    [∀ d l, Decidable (cond d l)] {p p' : PttPool} {a : PttMove} {l : PttLabel}
    (h : pttMove config cond p a = some (l, p')) :
    Transition.Where (fun p l => cond p.world l) (PttStep config) p l p' := by
  unfold pttMove at h
  split at h
  · rename_i o
    split at h
    · cases h
    · rename_i e k htask
      split at h
      · cases h
      · rename_i r d hserve
        split_ifs at h with hc
        obtain ⟨rfl, rfl⟩ := Prod.mk.inj (Option.some.inj h)
        exact ⟨.step (.act htask hserve), hc⟩
  · rename_i l
    split_ifs at h with hc
    obtain ⟨rfl, rfl⟩ := Prod.mk.inj (Option.some.inj h)
    exact ⟨.step (.env rfl), hc⟩
  · split at h
    · rename_i htask
      split_ifs at h with hc
      obtain ⟨rfl, rfl⟩ := Prod.mk.inj (Option.some.inj h)
      exact ⟨.again htask, hc⟩
    · cases h

/-- The daemon moves as it is told, enabled and without requests. -/
def runPttMoves (cond : Daemon → PttLabel → Prop) [∀ d l, Decidable (cond d l)]
    (moves : List PttMove) : Option (List PttLabel × PttPool) :=
  Transition.runOf (pttMove {} cond) (.start {} true fun _ => {}) moves

theorem run_runPttMoves {cond : Daemon → PttLabel → Prop} [∀ d l, Decidable (cond d l)]
    {moves : List PttMove} {res : List PttLabel × PttPool} (h : runPttMoves cond moves = some res) :
    Transition.Run (Transition.Where (fun p l => cond p.world l) (PttStep {}))
      (.start {} true fun _ => {}) res.1 res.2 :=
  Transition.run_runOf (fun _ _ _ _ h => step_pttMove h) h

end Audio
