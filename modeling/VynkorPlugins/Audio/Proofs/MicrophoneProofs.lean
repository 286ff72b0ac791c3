import VynkorPlugins.Audio.Microphone
import VynkorPlugins.Audio.Proofs.AudioProofs

/-!
# Proofs: every capture is terminated once

What a capture has put into the queue is its sound cut into chunks, and behind them one last chunk when its
task is at its end. If the loop does not leave before, all of it is sent.
-/

namespace Audio.Mic

open Pieces Transition

/-- What a step can do. -/
inductive StepCases (app : App) (s : World) : Label → World → Prop
  | request {req spawn} : StepCases app s (.request req spawn)
      { (s.handleAction app spawn req).1 with
        responses := (s.handleAction app spawn req).1.responses ++ [(s.handleAction app spawn req).2] }
  | forward {out queue} : s.queue = out :: queue →
      StepCases app s .forward { s with queue, sent := s.sent ++ [out] }
  | shutdown : StepCases app s .shutdown s.shutdown
  | read {k bytes c c'} : s.captures[k]? = some c → c.read bytes = some c' →
      StepCases app s (.read k bytes) (s.setCapture k c')
  | push {k c chunk c'} : s.captures[k]? = some c → s.queue.length < CAPACITY →
      c.push = some (chunk, c') → StepCases app s (.push k)
        { s.setCapture k c' with
          queue := s.queue ++ [{ capture := k, target := c.session.target, chunk }] }

variable {c c' : Capture} {out : List AudioStreamChunk} {chunk : AudioStreamChunk}
  {acc bytes : List UInt8}

/-! ## One capture -/

/-- The chunks that a capture is to send in all. -/
def Capture.whole (c : Capture) : List AudioStreamChunk :=
  dataChunks c.session (cut c.session.frame c.heard).1
    ++ [c.session.finalChunk (cut c.session.frame c.heard).2]

/-- Some chunks are those of what a capture has heard, but for what it still has in hand. -/
def Capture.Emitted (c : Capture) (out : List AudioStreamChunk) : Prop :=
  ∃ (pieces : List (List UInt8)) (acc : List UInt8),
    (∀ p ∈ pieces, p.length = c.session.frame) ∧ c.heard = pieces.flatten ++ acc ∧
      match c.phase with
      | .reading a | .final a => a = acc ∧ acc.length < c.session.frame ∧ out = dataChunks c.session pieces
      | .pushing a => a = acc ∧ c.session.frame ≤ acc.length ∧ out = dataChunks c.session pieces
      | .finished => acc.length < c.session.frame ∧
          out = dataChunks c.session pieces ++ [c.session.finalChunk acc]

theorem frame_pos (session : SessionMeta) : 0 < session.frame :=
  Nat.lt_of_lt_of_le Nat.two_pos (two_le_frame session)

theorem emitted_start (session : SessionMeta) : Capture.Emitted { session } [] :=
  ⟨[], [], nofun, rfl, rfl, frame_pos session, rfl⟩

theorem Capture.Emitted.resume (pieces : List (List UInt8))
    (hpieces : ∀ p ∈ pieces, p.length = c.session.frame) (hheard : c.heard = pieces.flatten ++ acc)
    (hout : out = dataChunks c.session pieces) : (c.resume acc).Emitted out := by
  unfold Capture.resume
  split_ifs with hle
  · exact ⟨pieces, acc, hpieces, hheard, rfl, hle, hout⟩
  · exact ⟨pieces, acc, hpieces, hheard, rfl, Nat.lt_of_not_le hle, hout⟩

theorem Capture.Emitted.read (h : c.Emitted out) (hread : c.read bytes = some c') : c'.Emitted out := by
  obtain ⟨pieces, acc, hpieces, hheard, hphase⟩ := h
  unfold Capture.read at hread
  split at hread
  · rename_i a hp
    rw [hp] at hphase
    obtain ⟨rfl, hlt, hout⟩ := hphase
    split_ifs at hread
    · obtain rfl := Option.some.inj hread
      exact ⟨pieces, a, hpieces, hheard, rfl, hlt, hout⟩
    · obtain rfl := Option.some.inj hread
      exact ⟨pieces, a, hpieces, hheard, rfl, hlt, hout⟩
    · obtain rfl := Option.some.inj hread
      refine Capture.Emitted.resume (c := { c with heard := c.heard ++ bytes }) pieces hpieces ?_ hout
      change c.heard ++ bytes = _
      rw [hheard, List.append_assoc]
  · cases hread

theorem Capture.Emitted.push (h : c.Emitted out) (hpush : c.push = some (chunk, c')) :
    c'.Emitted (out ++ [chunk]) := by
  obtain ⟨pieces, acc, hpieces, hheard, hphase⟩ := h
  unfold Capture.push at hpush
  split at hpush
  · rename_i a hp
    rw [hp] at hphase
    obtain ⟨rfl, hle, hout⟩ := hphase
    obtain ⟨rfl, rfl⟩ := Prod.mk.inj (Option.some.inj hpush)
    refine Capture.Emitted.resume (pieces ++ [a.take c.session.frame]) ?_ ?_ ?_
    · intro p hmem
      rcases List.mem_append.mp hmem with hmem | hmem
      · exact hpieces p hmem
      · rw [List.mem_singleton.mp hmem, List.length_take]
        omega
    · rw [List.flatten_append, List.flatten_singleton, List.append_assoc, List.take_append_drop, hheard]
    · rw [hout, dataChunks, dataChunks, List.map_append, List.map_singleton]
  · rename_i a hp
    rw [hp] at hphase
    obtain ⟨rfl, hlt, hout⟩ := hphase
    obtain ⟨rfl, rfl⟩ := Prod.mk.inj (Option.some.inj hpush)
    exact ⟨pieces, a, hpieces, hheard, hlt, by rw [hout]⟩
  · cases hpush

/-- A capture at its end has sent all of its sound, and one last chunk behind it. -/
theorem Capture.Emitted.whole (h : c.Emitted out) (hfinished : c.isFinished = true) : out = c.whole := by
  obtain ⟨pieces, acc, hpieces, hheard, hphase⟩ := h
  cases hp : c.phase with
  | finished =>
    rw [hp] at hphase
    obtain ⟨hlt, hout⟩ := hphase
    have hcut := cut_flatten_append (frame_pos c.session) hpieces acc
    rw [Capture.whole, hheard, hcut, cut_of_lt hlt, List.append_nil, hout]
  | reading a | pushing a | final a =>
    rw [Capture.isFinished, hp] at hfinished
    cases hfinished

/-- Before its end a capture has sent data only. -/
theorem Capture.Emitted.data (h : c.Emitted out) (hfinished : c.isFinished = false) :
    ∀ chunk ∈ out, chunk.end_of_stream = false := by
  obtain ⟨pieces, acc, -, -, hphase⟩ := h
  have hout : out = dataChunks c.session pieces := by
    cases hp : c.phase with
    | finished =>
      rw [Capture.isFinished, hp] at hfinished
      cases hfinished
    | reading a | pushing a | final a =>
      rw [hp] at hphase
      exact hphase.2.2
  intro chunk hmem
  rw [hout] at hmem
  obtain ⟨data, -, rfl⟩ := List.mem_map.mp hmem
  rfl

/-! ## The loop and its queue -/

variable {app : App} {s s' : World} {spawn : Spawn} {k j : Nat}

/-- What a capture has put into the queue, sent or not. -/
def World.outOf (s : World) (k : Nat) : List AudioStreamChunk :=
  ((s.sent ++ s.queue).filter fun out => out.capture = k).map Outgoing.chunk

structure Inv (s : World) : Prop where
  emitted : ∀ (k : Nat) c, s.captures[k]? = some c → c.Emitted (s.outOf k)
  addressed : ∀ out ∈ s.sent ++ s.queue, ∃ c, s.captures[out.capture]? = some c ∧
    out.target = c.session.target
  single : ∀ (id id' : String) a a', s.state.sessions[id]? = some a → s.state.sessions[id']? = some a' →
    id = id'
  down : s.down = true → s.queue = [] ∧ ∀ c ∈ s.captures, c.isFinished = true

theorem inv_initial : Inv {} where
  emitted k c h := by simp at h
  addressed out h := nomatch h
  single id id' a a' h := by simp at h
  down h := nomatch h

/-! ## Stopping sessions -/

/-- Sessions have been stopped, or taken out of the registry. -/
structure Stopped (s s' : World) : Prop where
  sent : s'.sent = s.sent
  queue : s'.queue = s.queue
  down : s'.down = s.down
  captures : ∀ k : Nat, s'.captures[k]? = s.captures[k]? ∨
    s'.captures[k]? = (s.captures[k]?).map Capture.requestStop
  registry : ∀ (id : String) a, s'.state.sessions[id]? = some a → s.state.sessions[id]? = some a

namespace Stopped

theorem refl (s : World) : Stopped s s :=
  ⟨rfl, rfl, rfl, fun _ => .inl rfl, fun _ _ h => h⟩

theorem trans {s₁ s₂ s₃ : World} (h : Stopped s₁ s₂) (h' : Stopped s₂ s₃) : Stopped s₁ s₃ where
  sent := h'.sent.trans h.sent
  queue := h'.queue.trans h.queue
  down := h'.down.trans h.down
  captures k := by
    rcases h'.captures k with h₂ | h₂ <;> rcases h.captures k with h₁ | h₁ <;> rw [h₂, h₁]
    · exact .inl rfl
    · exact .inr rfl
    · exact .inr rfl
    · refine .inr ?_
      rw [Option.map_map]
      rfl
  registry id a ha := h.registry id a (h'.registry id a ha)

theorem requestStop (s : World) (k : Nat) : Stopped s (s.requestStop k) where
  sent := rfl
  queue := rfl
  down := rfl
  captures j := by
    change (s.captures.modify k Capture.requestStop)[j]? = _ ∨
      (s.captures.modify k Capture.requestStop)[j]? = _
    rw [List.getElem?_modify]
    split_ifs
    · exact .inr rfl
    · refine .inl ?_
      cases s.captures[j]? <;> rfl
  registry _ _ h := h

theorem setSessions {sessions : Table String ActiveSession}
    (h : ∀ (id : String) a, sessions[id]? = some a → s.state.sessions[id]? = some a) :
    Stopped s (s.setSessions sessions) :=
  ⟨rfl, rfl, rfl, fun _ => .inl rfl, h⟩

theorem reapFinished (s : World) : Stopped s s.reapFinished := by
  refine setSessions fun id a ha => ?_
  rw [Table.getElem?_deleteWhere] at ha
  exact (Option.filter_eq_some_iff.mp ha).1

theorem stopOne (s : World) (id : String) : Stopped s (s.stopOne id).1 := by
  unfold World.stopOne
  split
  · refine trans (setSessions fun id' a ha => ?_) (requestStop _ _)
    rw [Table.getElem?_erase_ite] at ha
    split_ifs at ha
    exact ha
  · exact refl s

theorem stopAll (s : World) : Stopped s s.stopAll.1 := by
  have hfold : ∀ (sessions : List (String × ActiveSession)) (s : World),
      Stopped s (sessions.foldl (fun s a => s.requestStop a.2.task) s) := by
    intro sessions
    induction sessions with
    | nil => exact refl
    | cons a sessions ih => exact fun s => (requestStop s a.2.task).trans (ih _)
  refine trans (setSessions fun id a ha => ?_) (hfold _ _)
  rw [Std.ExtTreeMap.getElem?_empty] at ha
  cases ha

/-- A stopped capture is where it was. -/
theorem capture (h : Stopped s s') {c' : Capture} (hc' : s'.captures[k]? = some c') :
    ∃ c, s.captures[k]? = some c ∧ c'.session = c.session ∧ c'.phase = c.phase ∧ c'.heard = c.heard := by
  rcases h.captures k with hk | hk
  · exact ⟨c', hk ▸ hc', rfl, rfl, rfl⟩
  · rw [hk] at hc'
    obtain ⟨c, hc, rfl⟩ := Option.map_eq_some_iff.mp hc'
    exact ⟨c, hc, rfl, rfl, rfl⟩

theorem length (h : Stopped s s') : s'.captures.length = s.captures.length := by
  refine Nat.le_antisymm (Nat.le_of_not_lt fun hlt => ?_) (Nat.le_of_not_lt fun hlt => ?_)
  · obtain ⟨c, hc, -⟩ := h.capture (List.getElem?_eq_getElem hlt)
    rw [List.getElem?_eq_none (Nat.le_refl _)] at hc
    cases hc
  · have hc := List.getElem?_eq_getElem hlt
    rcases h.captures s'.captures.length with hk | hk
    · rw [List.getElem?_eq_none (Nat.le_refl _), hc] at hk
      cases hk
    · rw [List.getElem?_eq_none (Nat.le_refl _), hc] at hk
      cases hk

theorem inv (h : Stopped s s') (hI : Inv s) : Inv s' where
  emitted k c' hc' := by
    obtain ⟨c, hc, hsession, hphase, hheard⟩ := h.capture hc'
    have hemitted := hI.emitted k c hc
    unfold Capture.Emitted at hemitted ⊢
    rw [hsession, hphase, hheard, World.outOf, h.sent, h.queue]
    exact hemitted
  addressed out hout := by
    rw [h.sent, h.queue] at hout
    obtain ⟨c, hc, htarget⟩ := hI.addressed out hout
    rcases h.captures out.capture with hk | hk
    · exact ⟨c, hk ▸ hc, htarget⟩
    · exact ⟨c.requestStop, by rw [hk, hc]; rfl, htarget⟩
  single id id' a a' ha ha' := hI.single id id' a a' (h.registry id a ha) (h.registry id' a' ha')
  down hdown := by
    rw [h.down] at hdown
    obtain ⟨hqueue, hfinished⟩ := hI.down hdown
    refine ⟨h.queue.trans hqueue, fun c' hc' => ?_⟩
    obtain ⟨k, hk⟩ := List.mem_iff_getElem?.mp hc'
    obtain ⟨c, hc, -, hphase, -⟩ := h.capture hk
    rw [Capture.isFinished, hphase]
    exact hfinished c (List.mem_of_getElem? hc)

end Stopped

/-! ## Handlers -/

/-- The recorder that has been started has a pipe for its output. -/
theorem spawnFirst_stdout {attempt : String → Except String RecorderProcess}
    (h : ∀ bin recorder, attempt bin = .ok recorder → recorder.stdout = true)
    {tried chain : List String} {bin : String} {recorder : RecorderProcess}
    (hr : spawnFirst attempt tried chain = .ok (bin, recorder)) : recorder.stdout = true := by
  induction chain generalizing tried with
  | nil => cases hr
  | cons b chain ih =>
    rw [spawnFirst] at hr
    split at hr
    · rename_i recorder' hb
      obtain ⟨rfl, rfl⟩ := Prod.mk.inj (Except.ok.inj hr)
      exact h b recorder' hb
    · split_ifs at hr
      exact ih hr

theorem spawnRecorder_stdout {bin : String} {args : List String} {recorder : RecorderProcess}
    (h : spawnRecorder spawn bin args = .ok recorder) : recorder.stdout = true := by
  unfold spawnRecorder at h
  split at h
  · rw [← Except.ok.inj h]
  · cases h
  · cases h

theorem stopAll_sessions (s : World) : s.stopAll.1.state.sessions = ∅ := by
  have hfold : ∀ (sessions : List (String × ActiveSession)) (s : World),
      (sessions.foldl (fun s a => s.requestStop a.2.task) s).state = s.state := by
    intro sessions
    induction sessions with
    | nil => exact fun _ => rfl
    | cons a sessions ih => exact fun s => ih (s.requestStop a.2.task)
  rw [World.stopAll, hfold]
  rfl

/-- A start fails before anything is changed, or it stops all sessions and starts the only one. -/
theorem handleStart_cases (s : World) (cfg : RecorderConfig) (spawn : Spawn) (req : StartRequest) :
    (∃ e, s.handleStart cfg spawn req = (s, .error e)) ∨
      ∃ st session data, s.handleStart cfg spawn req = (s.stopAll.1.startSession st session, .ok data) ∧
        st.sessions = ∅ ∧ data.get "session_id" = some (.str session.id) := by
  unfold World.handleStart
  split
  · rename_i e _
    exact .inl ⟨e, rfl⟩
  · dsimp only
    split
    · rename_i e _
      exact .inl ⟨e, rfl⟩
    · rename_i bin recorder hspawn
      have hstdout : recorder.stdout = true :=
        spawnFirst_stdout (fun _ _ h => spawnRecorder_stdout h) hspawn
      refine .inr ?_
      rw [if_pos hstdout]
      refine ⟨_, _, _, rfl, ?_, rfl⟩
      cases req.stream_id with
      | none => exact stopAll_sessions s
      | some pinned =>
        dsimp only
        unfold State.notePinnedStreamId
        split_ifs <;> exact stopAll_sessions s

theorem handleStop_stopped (s : World) (session_id : Option String) :
    Stopped s (s.handleStop session_id).1 := by
  cases session_id with
  | none => exact (Stopped.reapFinished s).trans (Stopped.stopAll _)
  | some id => exact (Stopped.reapFinished s).trans (Stopped.stopOne _ _)

/-- What an action does. -/
inductive ActionCases (s : World) (req : ActionRequest) : World × ActionResponse → Prop
  | stopped {s' response} : Stopped s s' → (response.status ≠ .actionOk → s' = s) →
      (req.action = "mic_start" → response.status ≠ .actionOk) → ActionCases s req (s', response)
  | started {st session data} : st.sessions = ∅ → data.get "session_id" = some (.str session.id) →
      ActionCases s req (s.stopAll.1.startSession st session,
        { action_id := req.action_id, status := .actionOk, data_json := some data })

theorem handleAction_cases (app : App) (spawn : Spawn) (s : World) (req : ActionRequest) :
    ActionCases s req (s.handleAction app spawn req) := by
  unfold World.handleAction
  split
  · exact .stopped (.refl s) (fun _ => rfl) fun _ => nofun
  · split
    · split
      · rename_i parsed _
        rcases handleStart_cases s app.cfg spawn parsed with ⟨e, he⟩ | ⟨st, session, data, he, hst, hid⟩
        · rw [he]
          exact .stopped (.refl s) (fun _ => rfl) fun _ => nofun
        · rw [he]
          exact .started hst hid
      · exact .stopped (.refl s) (fun _ => rfl) fun _ => nofun
    · rename_i haction
      refine .stopped (handleStop_stopped s _) (fun h => absurd rfl h) fun h => ?_
      simp [haction] at h
    · rename_i haction
      refine .stopped (Stopped.reapFinished s) (fun h => absurd rfl h) fun h => ?_
      simp [haction] at h
    · exact .stopped (.refl s) (fun _ => rfl) fun _ => nofun

/-! ## Steps -/

theorem outOf_none (hI : Inv s) (hk : s.captures[k]? = none) : s.outOf k = [] := by
  rw [World.outOf, List.map_eq_nil_iff, List.filter_eq_nil_iff]
  intro out hout hcapture
  obtain ⟨c, hc, -⟩ := hI.addressed out hout
  rw [of_decide_eq_true hcapture, hk] at hc
  cases hc

theorem Inv.startSession (hI : Inv s) (hup : s.down = false) {st : State} (hst : st.sessions = ∅)
    (session : SessionMeta) : Inv (s.startSession st session) where
  emitted k c hc := by
    have hc' : (s.captures ++ [({ session } : Capture)])[k]? = some c := hc
    rw [List.getElem?_append] at hc'
    split_ifs at hc' with hlt
    · exact hI.emitted k c hc'
    · have hout : s.outOf k = [] := outOf_none hI (List.getElem?_eq_none (Nat.le_of_not_lt hlt))
      change c.Emitted (s.outOf k)
      rw [hout]
      obtain rfl := List.mem_singleton.mp (List.mem_of_getElem? hc')
      exact emitted_start session
  addressed out hout := by
    obtain ⟨c, hc, htarget⟩ := hI.addressed out hout
    refine ⟨c, ?_, htarget⟩
    change (s.captures ++ [({ session } : Capture)])[out.capture]? = some c
    rw [List.getElem?_append_left (List.getElem?_eq_some_iff.mp hc).1, hc]
  single id id' a a' ha ha' := by
    have hget (x : String) : (s.startSession st session).state.sessions[x]?
        = if session.id = x then some ⟨session, s.captures.length⟩ else none := by
      change (st.sessions.insert session.id _)[x]? = _
      rw [Table.getElem?_insert_ite, hst, Std.ExtTreeMap.getElem?_empty]
    rw [hget] at ha ha'
    split_ifs at ha ha' with hid hid'
    rw [← hid, hid']
  down hdown := by
    have hdown : s.down = true := hdown
    rw [hup] at hdown
    cases hdown

theorem Inv.action (hI : Inv s) (hup : s.down = false) (req : ActionRequest) :
    Inv (s.handleAction app spawn req).1 := by
  cases hr : s.handleAction app spawn req with
  | mk s' response =>
    have hcases := handleAction_cases app spawn s req
    rw [hr] at hcases
    cases hcases with
    | stopped hstopped => exact hstopped.inv hI
    | started hst =>
      have hstopped := Stopped.stopAll s
      exact (hstopped.inv hI).startSession (hstopped.down.trans hup) hst _

theorem Inv.forward (hI : Inv s) (hup : s.down = false) {out : Outgoing} {queue : List Outgoing}
    (hqueue : s.queue = out :: queue) : Inv { s with queue, sent := s.sent ++ [out] } := by
  have hsame : (s.sent ++ [out]) ++ queue = s.sent ++ s.queue := by
    rw [List.append_assoc, List.singleton_append, hqueue]
  exact {
    emitted := fun k c hc => by
      change c.Emitted ((((s.sent ++ [out]) ++ queue).filter _).map _)
      rw [hsame]
      exact hI.emitted k c hc
    addressed := fun o ho => hI.addressed o (hsame ▸ ho)
    single := hI.single
    down := fun hdown => by
      have hdown : s.down = true := hdown
      rw [hup] at hdown
      cases hdown }

theorem getElem?_set (hc : s.captures[k]? = some c) (c' : Capture) (j : Nat) :
    (s.captures.set k c')[j]? = if k = j then some c' else s.captures[j]? := by
  rw [List.getElem?_set, if_pos (List.getElem?_eq_some_iff.mp hc).1]

/-- The task of a capture moves on and puts some chunks into the queue. -/
theorem Inv.advance (hI : Inv s) (hup : s.down = false) (hc : s.captures[k]? = some c)
    (hsession : c'.session = c.session) (chunks : List AudioStreamChunk)
    (hemitted : c'.Emitted (s.outOf k ++ chunks)) :
    Inv { s.setCapture k c' with
      queue := s.queue ++ chunks.map fun chunk => { capture := k, target := c.session.target, chunk } } where
  emitted j d hd := by
    have hd' : (s.captures.set k c')[j]? = some d := hd
    rw [getElem?_set hc] at hd'
    change d.Emitted (((s.sent ++ (s.queue ++ chunks.map _)).filter _).map _)
    rw [← List.append_assoc, List.filter_append, List.map_append]
    split_ifs at hd' with hkj
    · subst hkj
      obtain rfl := Option.some.inj hd'
      have hnew : ((chunks.map fun chunk =>
          ({ capture := k, target := c.session.target, chunk } : Outgoing)).filter
            fun out => out.capture = k).map Outgoing.chunk = chunks := by
        rw [List.filter_eq_self.mpr (by simp), List.map_map]
        exact List.map_id _
      rw [hnew]
      exact hemitted
    · have hnew : (chunks.map fun chunk =>
          ({ capture := k, target := c.session.target, chunk } : Outgoing)).filter
            (fun out => out.capture = j) = [] := by
        rw [List.filter_eq_nil_iff]
        simp [hkj]
      rw [hnew, List.map_nil, List.append_nil]
      exact hI.emitted j d hd'
  addressed out hout := by
    have hout' : out ∈ s.sent ++ (s.queue ++ chunks.map _) := hout
    have hset (j : Nat) (d : Capture) (hd : s.captures[j]? = some d) :
        ∃ d', (s.captures.set k c')[j]? = some d' ∧ d'.session = d.session := by
      rw [getElem?_set hc]
      split_ifs with hkj
      · subst hkj
        rw [hc] at hd
        obtain rfl := Option.some.inj hd
        exact ⟨c', rfl, hsession⟩
      · exact ⟨d, hd, rfl⟩
    rw [← List.append_assoc] at hout'
    rcases List.mem_append.mp hout' with hold | hnew
    · obtain ⟨d, hd, htarget⟩ := hI.addressed out hold
      obtain ⟨d', hd', hs⟩ := hset _ d hd
      exact ⟨d', hd', by rw [htarget, hs]⟩
    · obtain ⟨chunk, -, rfl⟩ := List.mem_map.mp hnew
      obtain ⟨d', hd', hs⟩ := hset k c hc
      exact ⟨d', hd', by rw [hs]⟩
  single := hI.single
  down hdown := by
    have hdown : s.down = true := hdown
    rw [hup] at hdown
    cases hdown

theorem read_session (h : c.read bytes = some c') : c'.session = c.session := by
  unfold Capture.read at h
  split at h
  · split_ifs at h
    · rw [← Option.some.inj h]
    · rw [← Option.some.inj h]
    · rw [← Option.some.inj h]
      unfold Capture.resume
      split_ifs <;> rfl
  · cases h

theorem push_session (h : c.push = some (chunk, c')) : c'.session = c.session := by
  unfold Capture.push at h
  split at h
  · obtain ⟨-, rfl⟩ := Prod.mk.inj (Option.some.inj h)
    unfold Capture.resume
    split_ifs <;> rfl
  · obtain ⟨-, rfl⟩ := Prod.mk.inj (Option.some.inj h)
    rfl
  · cases h

theorem step_cases {l : Label} (h : s.step app l = some s') : s.down = false ∧ StepCases app s l s' := by
  unfold World.step at h
  split_ifs at h with hup
  refine ⟨Bool.eq_false_iff.mpr hup, ?_⟩
  cases l with
  | request req spawn =>
    obtain rfl := Option.some.inj h
    exact .request
  | forward =>
    dsimp only at h
    split at h
    · rename_i out queue hqueue
      obtain rfl := Option.some.inj h
      exact .forward hqueue
    · cases h
  | shutdown =>
    obtain rfl := Option.some.inj h
    exact .shutdown
  | read k bytes =>
    obtain ⟨c, hc, h⟩ := Option.bind_eq_some_iff.mp h
    obtain ⟨c', hread, rfl⟩ := Option.map_eq_some_iff.mp h
    exact .read hc hread
  | push k =>
    dsimp only at h
    unfold World.push at h
    split at h
    · cases h
    · rename_i c hc
      split_ifs at h with hroom
      obtain ⟨⟨chunk, c'⟩, hpush, rfl⟩ := Option.map_eq_some_iff.mp h
      exact .push hc hroom hpush

theorem Inv.shutdown (hI : Inv s) (hqueue : s.queue = [])
    (hfinished : ∀ c ∈ s.captures, c.isFinished = true) : Inv s.shutdown := by
  have hstopped := Stopped.stopAll s
  have hinv := hstopped.inv hI
  refine ⟨hinv.emitted, hinv.addressed, hinv.single, fun _ => ⟨hstopped.queue.trans hqueue, ?_⟩⟩
  intro c' hc'
  obtain ⟨k, hk⟩ := List.mem_iff_getElem?.mp hc'
  obtain ⟨c, hc, -, hphase, -⟩ := hstopped.capture hk
  rw [Capture.isFinished, hphase]
  exact hfinished c (List.mem_of_getElem? hc)

theorem Inv.step {l : Label} (hI : Inv s) (hs : s.step app l = some s') (horderly : s.orderly l = true) :
    Inv s' := by
  obtain ⟨hup, hcases⟩ := step_cases hs
  cases hcases with
  | @request req spawn =>
    have haction : Inv (s.handleAction app spawn req).1 := hI.action hup req
    exact ⟨haction.emitted, haction.addressed, haction.single, haction.down⟩
  | forward hqueue => exact hI.forward hup hqueue
  | shutdown =>
    rw [World.orderly, Bool.and_eq_true, List.isEmpty_iff, List.all_eq_true] at horderly
    exact hI.shutdown horderly.1 horderly.2
  | read hc hread =>
    have hemitted := (hI.emitted _ _ hc).read hread
    rw [← List.append_nil (s.outOf _)] at hemitted
    have hadvance := hI.advance hup hc (read_session hread) [] hemitted
    simp only [List.map_nil, List.append_nil] at hadvance
    exact hadvance
  | push hc _ hpush =>
    exact hI.advance hup hc (push_session hpush) [_] ((hI.emitted _ _ hc).push hpush)

/-! ## Captures that are stopped come to their end -/

/-- The runs in which the plugin is shut down only when all has been sent. -/
abbrev Orderly (app : App) : List Label → World → Prop :=
  Run (Where (fun s l => s.orderly l = true) fun s l s' => s.step app l = some s') {}

variable {trace : List Label}

theorem Run.inv (hr : Orderly app trace s) : Inv s :=
  hr.invariant_state inv_initial fun _ _ _ hI hs => hI.step hs.1 hs.2

/-- A step of the loop that sends, or of the task of one capture. -/
def Label.flushes (k : Nat) : Label → Prop
  | .forward => True
  | .read j bytes => j = k ∧ bytes = []
  | .push j => j = k
  | _ => False

/-- The queue is drained. -/
theorem drain (hr : Orderly app trace s) (hup : s.down = false) (k : Nat) :
    ∃ ls s', Orderly app (ls ++ trace) s' ∧ (∀ l ∈ ls, l.flushes k) ∧ s'.queue = [] ∧
      s'.captures = s.captures ∧ s'.down = false := by
  generalize hq : s.queue = queue
  induction queue generalizing s trace with
  | nil => exact ⟨[], s, hr, nofun, hq, rfl, hup⟩
  | cons out queue ih =>
    have hforward : s.step app .forward = some { s with queue, sent := s.sent ++ [out] } := by
      simp only [World.step, hup, hq, Bool.false_eq_true, if_false]
    obtain ⟨ls, s', hrun, hls, hrest⟩ := ih (hr.step ⟨hforward, rfl⟩) hup rfl
    refine ⟨ls ++ [Label.forward], s', ?_, ?_, hrest⟩
    · rw [List.append_assoc]
      exact hrun
    · intro l hl
      rcases List.mem_append.mp hl with hl | hl
      · exact hls l hl
      · rw [List.mem_singleton.mp hl]
        trivial

/-- A capture with a chunk in hand puts it into the queue, and the queue is drained. -/
theorem push_drain (hr : Orderly app trace s) (hup : s.down = false) (hqueue : s.queue = [])
    (hc : s.captures[k]? = some c) (hpush : c.push = some (chunk, c')) :
    ∃ ls s', Orderly app (ls ++ trace) s' ∧ (∀ l ∈ ls, l.flushes k) ∧ s'.queue = [] ∧
      s'.captures[k]? = some c' ∧ s'.down = false := by
  have hstep : s.step app (.push k) = some { s.setCapture k c' with
      queue := s.queue ++ [{ capture := k, target := c.session.target, chunk }] } := by
    have hroom : s.queue.length < CAPACITY := by
      rw [hqueue]
      decide
    simp only [World.step, hup, Bool.false_eq_true, if_false, World.push, hc, hroom, if_true, hpush,
      Option.map_some]
  obtain ⟨ls, s', hrun, hls, hempty, hcaptures, hup'⟩ := drain (hr.step ⟨hstep, rfl⟩) hup k
  refine ⟨ls ++ [Label.push k], s', ?_, ?_, hempty, ?_, hup'⟩
  · rw [List.append_assoc]
    exact hrun
  · intro l hl
    rcases List.mem_append.mp hl with hl | hl
    · exact hls l hl
    · rw [List.mem_singleton.mp hl]
      rfl
  · rw [hcaptures]
    exact (getElem?_set hc c' k).trans (if_pos rfl)

/-- By steps of its own and those of the loop the capture comes to its end, with all of it sent. -/
def Ends (app : App) (k : Nat) (trace : List Label) : Prop :=
  ∃ ls s', Orderly app (ls ++ trace) s' ∧ (∀ l ∈ ls, l.flushes k) ∧ s'.queue = [] ∧
    (s'.captures[k]?).any Capture.isFinished = true

theorem Ends.before {ls : List Label} (h : Ends app k (ls ++ trace)) (hls : ∀ l ∈ ls, l.flushes k) :
    Ends app k trace := by
  obtain ⟨ls', s', hrun, hls', hrest⟩ := h
  refine ⟨ls' ++ ls, s', ?_, ?_, hrest⟩
  · rw [List.append_assoc]
    exact hrun
  · intro l hl
    rcases List.mem_append.mp hl with hl | hl
    · exact hls' l hl
    · exact hls l hl

theorem final_ends (hr : Orderly app trace s) (hup : s.down = false) (hqueue : s.queue = [])
    (hc : s.captures[k]? = some c) (hphase : c.phase = .final acc) : Ends app k trace := by
  have hpush : c.push = some (c.session.finalChunk acc, { c with phase := .finished }) := by
    simp only [Capture.push, hphase]
  obtain ⟨ls, s', hrun, hls, hempty, hc', -⟩ := push_drain hr hup hqueue hc hpush
  refine ⟨ls, s', hrun, hls, hempty, ?_⟩
  rw [hc']
  rfl

theorem reading_ends (hr : Orderly app trace s) (hup : s.down = false) (hqueue : s.queue = [])
    (hc : s.captures[k]? = some c) (hphase : c.phase = .reading acc) : Ends app k trace := by
  have hread : c.read [] = some { c with phase := .final acc } := by
    simp only [Capture.read, hphase, if_true, ite_self]
  have hstep : s.step app (.read k []) = some (s.setCapture k { c with phase := .final acc }) := by
    simp only [World.step, hup, Bool.false_eq_true, if_false, hc, Option.bind_some, hread,
      Option.map_some]
  have hc' : (s.setCapture k { c with phase := .final acc }).captures[k]?
      = some { c with phase := .final acc } := (getElem?_set hc _ k).trans (if_pos rfl)
  have hends : Ends app k ([Label.read k []] ++ trace) :=
    final_ends (hr.step ⟨hstep, rfl⟩) hup hqueue hc' rfl
  refine hends.before fun l hl => ?_
  rw [List.mem_singleton.mp hl]
  exact ⟨rfl, rfl⟩

/-- A capture whose recorder ends, or that is stopped, comes to its end. -/
theorem capture_ends (hr : Orderly app trace s) (hup : s.down = false) (hqueue : s.queue = [])
    (hc : s.captures[k]? = some c) : Ends app k trace := by
  cases hphase : c.phase with
  | finished =>
    refine ⟨[], s, hr, nofun, hqueue, ?_⟩
    rw [hc, Option.any_some, Capture.isFinished, hphase]
  | final acc => exact final_ends hr hup hqueue hc hphase
  | reading acc => exact reading_ends hr hup hqueue hc hphase
  | pushing acc =>
    induction hn : acc.length using Nat.strong_induction_on generalizing acc c s trace with
    | _ n ih =>
      have hpush : c.push = some (buildChunk c.session (acc.take c.session.frame) false,
          c.resume (acc.drop c.session.frame)) := by
        simp only [Capture.push, hphase]
      obtain ⟨ls, s', hrun, hls, hempty, hc', hup'⟩ := push_drain hr hup hqueue hc hpush
      refine Ends.before ?_ hls
      by_cases hle : c.session.frame ≤ (acc.drop c.session.frame).length
      · have hlt : (acc.drop c.session.frame).length < n := by
          have hpos := frame_pos c.session
          rw [List.length_drop] at hle ⊢
          omega
        have hphase' : (c.resume (acc.drop c.session.frame)).phase
            = .pushing (acc.drop c.session.frame) := by
          rw [Capture.resume, if_pos hle]
        exact ih _ hlt hrun hup' hempty hc' _ hphase' rfl
      · have hphase' : (c.resume (acc.drop c.session.frame)).phase
            = .reading (acc.drop c.session.frame) := by
          rw [Capture.resume, if_neg hle]
        exact reading_ends hrun hup' hempty hc' hphase'

/-! ## Runs -/

/-- As long as the plugin is not shut down before the queue is empty and all captures have ended: what a
    capture has put into the queue is data until its end, and then all of its sound with one last chunk
    behind it, addressed to its peer; after a shutdown all of this has been sent; at most one session is
    registered; a start that is answered with an error changes nothing; and a capture can always come to its
    end with everything sent. -/
theorem streams_terminated_once (app : App) (hr : Orderly app trace s) :
    (∀ (k : Nat) c, s.captures[k]? = some c →
      (c.isFinished = false → ∀ chunk ∈ s.outOf k, chunk.end_of_stream = false) ∧
      (c.isFinished = true → s.outOf k = c.whole)) ∧
    (∀ out ∈ s.sent ++ s.queue, ∃ c, s.captures[out.capture]? = some c ∧ out.target = c.session.target) ∧
    (s.down = true → ∀ (k : Nat) c, s.captures[k]? = some c →
      (s.sent.filter fun out => out.capture = k).map Outgoing.chunk = c.whole) ∧
    (∀ (id id' : String) a a', s.state.sessions[id]? = some a → s.state.sessions[id']? = some a' →
      id = id') ∧
    (∀ req spawn, (s.handleAction app spawn req).2.status ≠ .actionOk →
      (s.handleAction app spawn req).1 = s) ∧
    (∀ req spawn, req.action = "mic_start" → (s.handleAction app spawn req).2.status = .actionOk →
      ∃ c, (s.handleAction app spawn req).1.captures[s.captures.length]? = some c ∧
        (s.handleAction app spawn req).2.data_json.bind (Json.get · "session_id")
          = some (.str c.session.id)) ∧
    (s.down = false → ∀ k < s.captures.length, Ends app k trace) := by
  have hI : Inv s := Run.inv hr
  refine ⟨?_, hI.addressed, ?_, hI.single, ?_, ?_, ?_⟩
  · intro k c hc
    exact ⟨(hI.emitted k c hc).data, (hI.emitted k c hc).whole⟩
  · intro hdown k c hc
    obtain ⟨hqueue, hfinished⟩ := hI.down hdown
    have hwhole := (hI.emitted k c hc).whole (hfinished c (List.mem_of_getElem? hc))
    rw [World.outOf, hqueue, List.append_nil] at hwhole
    exact hwhole
  · intro req spawn hstatus
    cases hres : s.handleAction app spawn req with
    | mk s' response =>
      have hcases := handleAction_cases app spawn s req
      rw [hres] at hcases hstatus
      cases hcases with
      | stopped _ hsame => exact hsame hstatus
      | started => exact absurd rfl hstatus
  · intro req spawn haction hstatus
    cases hres : s.handleAction app spawn req with
    | mk s' response =>
      have hcases := handleAction_cases app spawn s req
      rw [hres] at hcases hstatus
      cases hcases with
      | stopped _ _ hno => exact absurd hstatus (hno haction)
      | @started st session data _ hid =>
        refine ⟨{ session }, ?_, hid⟩
        change (s.stopAll.1.captures ++ [({ session } : Capture)])[s.captures.length]? = _
        rw [← (Stopped.stopAll s).length, List.getElem?_concat_length]
  · intro hup k hk
    obtain ⟨ls, s', hrun, hls, hempty, hcaptures, hup'⟩ := drain hr hup k
    have hc : s'.captures[k]? = some s.captures[k] := by
      rw [hcaptures]
      exact List.getElem?_eq_getElem hk
    exact (capture_ends hrun hup' hempty hc).before hls

/-- A request of a client, with its parameters. -/
def request (action : String) (params : List (String × Json)) : Label :=
  .request { action_id := "a", action, params_json := (Json.obj params).toVec } fun _ _ => .ok ()

def recorder : App := { serde := .compact, cfg := {} }

/-- A capture that hears three bytes before it is stopped. -/
theorem streams_terminated_once_sample :
    ∃ (s : World) (c : Capture), s.captures[0]? = some c ∧
      (s.sent.filter fun out => out.capture = 0).map Outgoing.chunk = c.whole ∧ s.sent.length = 1 := by
  have hsome : ((runWhere (fun s l => World.orderly s l = true) (World.step recorder) {}
      [request "mic_start" [("target", .str "stt")], .read 0 [1, 2, 3], request "mic_stop" [],
        .read 0 [4], .push 0, .forward, .shutdown]).any fun s =>
          s.down = true ∧ s.captures.length = 1 ∧ s.sent.length = 1) = true := by
    decide +kernel
  obtain ⟨s, hs, hend⟩ := (Option.any_eq_true _ _).mp hsome
  obtain ⟨hdown, hlength, hsent⟩ := of_decide_eq_true hend
  obtain ⟨-, -, hwhole, -⟩ := streams_terminated_once recorder (run_of_runWhere .start hs)
  have hc : s.captures[0]? = some s.captures[0] := List.getElem?_eq_getElem (by omega)
  exact ⟨s, _, hc, hwhole hdown 0 _ hc, hsent⟩

/-- A shutdown while a session captures: its peer is sent no last chunk. -/
theorem shutdown_sends_no_end :
    ¬ ∀ (app : App) (trace : List Label) (s : World),
      Run (fun s l s' => s.step app l = some s') {} trace s → s.down = true →
        ∀ (k : Nat) c, s.captures[k]? = some c →
          ∃ out ∈ s.sent, out.capture = k ∧ out.chunk.end_of_stream = true := by
  intro hall
  have hsome : ((runWhere (fun _ _ => True) (World.step recorder) {}
      [request "mic_start" [("target", .str "stt")], .read 0 [1, 2, 3], .shutdown]).any fun s =>
          s.down = true ∧ s.captures.length = 1 ∧ s.sent.length = 0) = true := by
    decide +kernel
  obtain ⟨s, hs, hend⟩ := (Option.any_eq_true _ _).mp hsome
  obtain ⟨hdown, hlength, hsent⟩ := of_decide_eq_true hend
  have hrun := (run_of_runWhere .start hs).mono fun _ _ _ hl => hl.1
  have hc : s.captures[0]? = some s.captures[0] := List.getElem?_eq_getElem (by omega)
  obtain ⟨out, hout, -⟩ := hall recorder _ s hrun hdown 0 _ hc
  rw [List.eq_nil_of_length_eq_zero hsent] at hout
  cases hout

end Audio.Mic
