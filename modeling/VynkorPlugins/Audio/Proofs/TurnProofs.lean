import VynkorPlugins.Audio.Turn

/-!
# Proofs: a voice turn and what it opens

Only a few of the calls of a turn open or close anything. What is left of a turn when all its other
effects are taken out is one of a few lists, for which it is computed whether everything is closed.
-/

namespace Audio

namespace Turn

open Async

abbrev Event := (e : TurnEffect) × e.Reply

/-! ## What a turn leaves open -/

/-- The effects of some events. -/
abbrev asked (events : List Event) : List TurnEffect :=
  events.map Sigma.fst

/-- What an event has opened is closed later: the stream and the session by requests for them, the slot
    by the end of the turn. -/
def Closed (later : List Event) : Event → Prop
  | ⟨.call (.stt_listen_start stream_id _ _), (_, took)⟩ =>
    took.isSome → .call (.stt_listen_stop stream_id) ∈ asked later
  | ⟨.call (.mic_start _ _ _ _ _), (_, took)⟩ =>
    ∀ session, took = some session → .call (.mic_stop session) ∈ asked later
  | ⟨.tryBeginTurn, claimed⟩ => claimed = true → ∃ result, .endTurn result ∈ asked later
  | _ => True

def NoLeak : List Event → Prop
  | [] => True
  | event :: later => Closed later event ∧ NoLeak later

/-! ## What a turn can rely on -/

def opensStream : Event → Bool
  | ⟨.call (.stt_listen_start _ _ _), (_, took)⟩ => took.isSome
  | _ => false

/-- A stream was opened. -/
def listening (trace : List Event) : Bool :=
  trace.any opensStream

/-- The calls that took effect say so, and while a stream is open the microphone answers as it should. -/
def Regular (listening : Bool) : Event → Prop
  | ⟨.call (.stt_listen_start _ _ _), (answer, took)⟩ => took.isSome → ∃ payload, answer = .ok payload
  | ⟨.call (.mic_start _ _ _ _ _), (answer, took)⟩ =>
    (∀ session, took = some session →
      ∃ payload, answer = .ok payload ∧ some session = member payload "session_id") ∧
    (listening = true → ∀ payload, answer = .ok payload → (member payload "session_id").isSome)
  | ⟨.call (.mic_stop _), (answer, _)⟩ => listening = true → ∃ payload, answer = .ok payload
  | _ => True

def AllRegular (trace : List Event) : Prop :=
  ∀ event ∈ trace, Regular (listening trace) event

/-! ## The events that matter -/

def essential : TurnEffect → Bool
  | .call (.stt_listen_start _ _ _) | .call (.mic_start _ _ _ _ _) | .call (.mic_stop _)
  | .call (.stt_listen_stop _) | .tryBeginTurn | .endTurn _ => true
  | _ => false

def core (trace : List Event) : List Event :=
  trace.filter fun event => essential event.1

variable {trace t₁ t₂ : List Event} {event : Event} {e : TurnEffect}

@[simp] theorem core_nil : core [] = [] := rfl

theorem core_cons_of_essential (h : essential event.1 = true) : core (event :: trace) = event :: core trace :=
  List.filter_cons_of_pos h

theorem core_cons_of_not (h : essential event.1 = false) : core (event :: trace) = core trace :=
  List.filter_cons_of_neg (by simp [h])

@[simp] theorem core_append : core (t₁ ++ t₂) = core t₁ ++ core t₂ :=
  List.filter_append _ _

theorem core_eq_nil (h : ∀ event ∈ trace, essential event.1 = false) : core trace = [] := by
  refine List.filter_eq_nil_iff.mpr fun event hevent => ?_
  simp [h event hevent]

theorem mem_asked_core (trace : List Event) (h : essential e = true) : e ∈ asked (core trace) ↔ e ∈ asked trace := by
  simp only [asked, core, List.mem_map, List.mem_filter]
  constructor
  · rintro ⟨event, ⟨hevent, -⟩, rfl⟩
    exact ⟨event, hevent, rfl⟩
  · rintro ⟨event, hevent, rfl⟩
    exact ⟨event, ⟨hevent, h⟩, rfl⟩

theorem closed_core : Closed (core trace) event ↔ Closed trace event := by
  unfold Closed
  split
  · rw [mem_asked_core trace rfl]
  · simp only [mem_asked_core trace (e := .call (.mic_stop _)) rfl]
  · simp only [mem_asked_core trace (e := .endTurn _) rfl]
  · rfl

theorem closed_of_not_essential (h : essential event.1 = false) : Closed trace event := by
  unfold Closed
  split
  · cases h
  · cases h
  · cases h
  · trivial

theorem regular_of_not_essential {listening : Bool} (h : essential event.1 = false) :
    Regular listening event := by
  unfold Regular
  split
  · cases h
  · cases h
  · cases h
  · trivial

theorem noLeak_core : NoLeak (core trace) ↔ NoLeak trace := by
  induction trace with
  | nil => rfl
  | cons event trace ih =>
    cases hevent : essential event.1 with
    | true =>
      rw [core_cons_of_essential hevent, NoLeak, NoLeak, closed_core, ih]
    | false =>
      rw [core_cons_of_not hevent, NoLeak, ih]
      exact (and_iff_right (closed_of_not_essential hevent)).symm

theorem essential_of_opensStream (h : opensStream event = true) : essential event.1 = true := by
  unfold opensStream at h
  split at h
  · rfl
  · cases h

theorem listening_core : listening (core trace) = listening trace := by
  rw [Bool.eq_iff_iff, listening, listening, List.any_eq_true, List.any_eq_true]
  constructor
  · rintro ⟨event, hevent, hopens⟩
    exact ⟨event, List.mem_of_mem_filter hevent, hopens⟩
  · rintro ⟨event, hevent, hopens⟩
    exact ⟨event, List.mem_filter.mpr ⟨hevent, essential_of_opensStream hopens⟩, hopens⟩

theorem allRegular_core : AllRegular (core trace) ↔ AllRegular trace := by
  unfold AllRegular
  rw [listening_core]
  constructor
  · intro h event hevent
    cases hess : essential event.1 with
    | true => exact h event (List.mem_filter.mpr ⟨hevent, hess⟩)
    | false => exact regular_of_not_essential hess
  · exact fun h event hevent => h event (List.mem_of_mem_filter hevent)

/-! ## The stages of a turn -/

variable {config : DaemonConfig} {session : String} {heard : Except String String}

theorem path_rpc_iff {call : RpcCall} {answer : Except String Json} :
    Path (rpc call) trace answer ↔ ∃ took, trace = [⟨.call call, (answer, took)⟩] := by
  change Path (.call (.call call) fun reply => .done reply.1) trace answer ↔ _
  rw [path_call_iff]
  constructor
  · rintro ⟨⟨answer', took⟩, rest, rfl, h⟩
    obtain ⟨rfl, rfl⟩ := path_done_iff.mp h
    exact ⟨took, rfl⟩
  · rintro ⟨took, rfl⟩
    exact ⟨(answer, took), [], rfl, .done⟩

theorem path_effect_iff {e : TurnEffect} {α : Type} {f : e.Reply → Turn α} {a : α} :
    Path (effect e >>= f) trace a ↔ ∃ reply rest, trace = ⟨e, reply⟩ :: rest ∧ Path (f reply) rest a :=
  path_call_iff

abbrev openStream (config : DaemonConfig) (answer : Except String Json) (took : Option String) : Event :=
  ⟨.call (.stt_listen_start config.stream_id config.sample_rate_hz 1), (answer, took)⟩

abbrev openMic (config : DaemonConfig) (answer : Except String Json) (took : Option String) : Event :=
  ⟨.call (.mic_start config.stt_target config.stream_id config.sample_rate_hz 1 config.chunk_ms),
    (answer, took)⟩

abbrev closeMic (session : String) (answer : Except String Json) (took : Option String) : Event :=
  ⟨.call (.mic_stop session), (answer, took)⟩

abbrev closeStream (config : DaemonConfig) (answer : Except String Json) (took : Option String) : Event :=
  ⟨.call (.stt_listen_stop config.stream_id), (answer, took)⟩

/-- How a capture is opened, and what comes of it. -/
inductive Started (config : DaemonConfig) : List Event → Except String String → Prop
  | refused {e : String} {took : Option String} :
      Started config [openStream config (.error e) took] (.error e)
  | noMic {payload : Json} {took took' took'' : Option String} {e : String}
      {answer : Except String Json} :
      Started config [openStream config (.ok payload) took, openMic config (.error e) took',
        closeStream config answer took''] (.error e)
  | noSession {payload mic : Json} {took took' : Option String} {e : String}
      (hmic : member mic "session_id" = none) :
      Started config [openStream config (.ok payload) took, openMic config (.ok mic) took'] (.error e)
  | started {payload mic : Json} {took took' : Option String} {session : String}
      (hmic : member mic "session_id" = some session) :
      Started config [openStream config (.ok payload) took, openMic config (.ok mic) took'] (.ok session)

theorem started_of_path (h : Path (startCapture config) trace heard) : Started config (core trace) heard := by
  rw [startCapture, path_bind_iff] at h
  obtain ⟨_, answer, t, rfl, h₁, h⟩ := h
  obtain ⟨took, rfl⟩ := path_rpc_iff.mp h₁
  cases answer with
  | error e =>
    obtain ⟨rfl, rfl⟩ := path_done_iff.mp h
    exact .refused
  | ok payload =>
    simp only at h
    rw [path_bind_iff] at h
    obtain ⟨_, answer, t, rfl, h₁, h⟩ := h
    obtain ⟨took', rfl⟩ := path_rpc_iff.mp h₁
    cases answer with
    | error e =>
      simp only at h
      rw [path_bind_iff] at h
      obtain ⟨_, answer, t, rfl, h₁, h⟩ := h
      obtain ⟨took'', rfl⟩ := path_rpc_iff.mp h₁
      obtain ⟨rfl, rfl⟩ := path_done_iff.mp h
      exact .noMic
    | ok mic =>
      simp only at h
      cases hmic : member mic "session_id" with
      | none =>
        rw [hmic] at h
        obtain ⟨rfl, rfl⟩ := path_done_iff.mp h
        exact .noSession hmic
      | some session =>
        rw [hmic] at h
        obtain ⟨rfl, rfl⟩ := path_done_iff.mp h
        exact .started hmic

/-- How a capture is closed. -/
inductive Finished (config : DaemonConfig) (session : String) : List Event → Prop
  | refused {e : String} {took : Option String} :
      Finished config session [closeMic session (.error e) took]
  | finished {payload : Json} {took took' : Option String} {answer : Except String Json} :
      Finished config session [closeMic session (.ok payload) took, closeStream config answer took']

theorem finished_of_path (h : Path (finishCapture config session) trace heard) :
    Finished config session (core trace) := by
  rw [finishCapture, path_bind_iff] at h
  obtain ⟨_, answer, t, rfl, h₁, h⟩ := h
  obtain ⟨took, rfl⟩ := path_rpc_iff.mp h₁
  cases answer with
  | error e =>
    obtain ⟨rfl, -⟩ := path_done_iff.mp h
    exact .refused
  | ok payload =>
    simp only at h
    rw [path_bind_iff] at h
    obtain ⟨_, answer, t, rfl, h₁, h⟩ := h
    obtain ⟨took', rfl⟩ := path_rpc_iff.mp h₁
    have hrest : t = [] := by
      cases answer with
      | error e => exact (path_done_iff.mp h).1
      | ok stop =>
        simp only at h
        split at h
        · exact (path_done_iff.mp h).1
        · exact (path_done_iff.mp h).1
    rw [hrest]
    exact .finished

/-- What is left of the listen stage. -/
inductive Listened (config : DaemonConfig) : List Event → Prop
  | failed {t : List Event} {e : String} (h : Started config t (.error e)) : Listened config t
  | captured {t t' : List Event} {session : String} (h : Started config t (.ok session))
      (h' : Finished config session t') : Listened config (t ++ t')

theorem listened_of_window (h : Path (listenWindow config) trace heard) : Listened config (core trace) := by
  rw [listenWindow, path_bind_iff] at h
  obtain ⟨t₁, started, t, rfl, h₁, h⟩ := h
  have hstarted := started_of_path h₁
  rw [core_append]
  cases started with
  | error e =>
    obtain ⟨rfl, -⟩ := path_done_iff.mp h
    rw [core_nil, List.append_nil]
    exact .failed hstarted
  | ok session =>
    obtain ⟨_, t, rfl, k₁⟩ := path_effect_iff.mp h
    obtain ⟨_, t, rfl, k₂⟩ := path_effect_iff.mp k₁
    obtain ⟨t₂, transcript, t, rfl, h₂, k₃⟩ := path_bind_iff.mp k₂
    obtain ⟨_, t, rfl, k₄⟩ := path_effect_iff.mp k₃
    obtain ⟨rfl, -⟩ := path_done_iff.mp k₄
    refine .captured hstarted ?_
    rw [core_cons_of_not rfl, core_cons_of_not rfl, core_append, core_cons_of_not rfl, core_nil,
      List.append_nil]
    exact finished_of_path h₂

theorem listened_of_vad (h : Path (listenVad config) trace heard) : Listened config (core trace) := by
  rw [listenVad, path_bind_iff] at h
  obtain ⟨t₁, started, t, rfl, h₁, h⟩ := h
  have hstarted := started_of_path h₁
  rw [core_append]
  cases started with
  | error e =>
    obtain ⟨rfl, -⟩ := path_done_iff.mp h
    rw [core_nil, List.append_nil]
    exact .failed hstarted
  | ok session =>
    obtain ⟨_, t, rfl, k₁⟩ := path_effect_iff.mp h
    obtain ⟨_, t, rfl, k₂⟩ := path_effect_iff.mp k₁
    obtain ⟨_, t, rfl, k₃⟩ := path_effect_iff.mp k₂
    refine .captured hstarted ?_
    rw [core_cons_of_not rfl, core_cons_of_not rfl, core_cons_of_not rfl]
    exact finished_of_path k₃

theorem listened_of_ptt (h : Path (pttListen config) trace heard) : Listened config (core trace) := by
  rw [pttListen, path_bind_iff] at h
  obtain ⟨t₁, started, t, rfl, h₁, h⟩ := h
  have hstarted := started_of_path h₁
  rw [core_append]
  cases started with
  | error e =>
    obtain ⟨rfl, -⟩ := path_done_iff.mp h
    rw [core_nil, List.append_nil]
    exact .failed hstarted
  | ok session =>
    obtain ⟨released, t, rfl, k₁⟩ := path_effect_iff.mp h
    obtain ⟨t₂, transcript, t, rfl, h₂, k₂⟩ := path_bind_iff.mp k₁
    have hrest : t = [] := by
      cases released with
      | error e => exact (path_done_iff.mp k₂).1
      | ok => exact (path_done_iff.mp k₂).1
    refine .captured hstarted ?_
    rw [core_cons_of_not rfl, core_append, hrest, core_nil, List.append_nil]
    exact finished_of_path h₂

theorem listened_of_listen {bus : Bool} (h : Path (listen config bus) trace heard) :
    Listened config (core trace) := by
  unfold listen at h
  split at h
  · exact listened_of_vad h
  · exact listened_of_window h

/-! ## Thinking and speaking -/

theorem asks_effect {e : TurnEffect} (h : essential e = false) :
    Asks (fun e => essential e = false) (effect e) :=
  asks_perform h

theorem asks_rpc {call : RpcCall} (h : essential (.call call) = false) :
    Asks (fun e => essential e = false) (rpc call) :=
  (asks_effect h).bind fun _ => .done

theorem asks_runAgent {prompt memory_ctx : String} :
    Asks (fun e => essential e = false) (runAgent config prompt memory_ctx) := by
  refine (asks_rpc rfl).bind fun answer => ?_
  cases answer with
  | error e => exact .done
  | ok goal => exact .done

theorem asks_speak {text : String} : Asks (fun e => essential e = false) (speak config text) := by
  refine (asks_rpc rfl).bind fun answer => ?_
  cases answer with
  | error e => exact .done
  | ok synth =>
    simp only
    split
    · exact .done
    · exact asks_rpc rfl

theorem asks_respond {transcript memory_ctx : String} :
    Asks (fun e => essential e = false) (respond config transcript memory_ctx) := by
  unfold respond
  split
  · exact .done
  · refine asks_runAgent.bind fun answer => ?_
    cases answer with
    | error e => exact .done
    | ok answer =>
      simp only
      split
      · exact .done
      · refine asks_speak.bind fun spoken => ?_
        cases spoken with
        | error e => exact .done
        | ok => exact .done

theorem asks_answer {heard : Except String String} :
    Asks (fun e => essential e = false) (answer config heard) := by
  unfold answer
  cases heard with
  | error e => exact .done
  | ok transcript =>
    refine (asks_effect (e := .recentContext) rfl).bind fun memory_ctx => ?_
    refine Asks.bind asks_respond fun result => ?_
    exact (asks_effect rfl).bind fun _ => .done

theorem core_answer {result : TurnResult} (h : Path (answer config heard) trace result) : core trace = [] :=
  core_eq_nil (Asks.of_path asks_answer h)

/-! ## Whole turns -/

/-- What is left of a turn between its begin and its end. -/
inductive Spoken (config : DaemonConfig) : List Event → Prop
  | text : Spoken config []
  | listened {t : List Event} (h : Listened config t) : Spoken config t

variable {result : TurnResult}

theorem spoken_of_path {text : Option String} {bus : Bool}
    (h : Path (runVoiceTurn config text bus) trace result) : Spoken config (core trace) := by
  unfold runVoiceTurn at h
  cases text with
  | some transcript =>
    rw [core_answer h]
    exact .text
  | none =>
    obtain ⟨t₁, heard, t₂, rfl, h₁, h₂⟩ := path_bind_iff.mp h
    rw [core_append, core_answer h₂, List.append_nil]
    exact .listened (listened_of_listen h₁)

theorem spoken_of_ptt (h : Path (runPttTurn config) trace result) : Spoken config (core trace) := by
  obtain ⟨t₁, heard, t₂, rfl, h₁, h₂⟩ := path_bind_iff.mp h
  rw [core_append, core_answer h₂, List.append_nil]
  exact .listened (listened_of_ptt h₁)

/-- A turn does not get the slot, or it has it from its first event to its last one. -/
inductive Turned (config : DaemonConfig) : List Event → Prop
  | busy : Turned config [⟨.tryBeginTurn, false⟩]
  | turned {t : List Event} {result : TurnResult} (h : Spoken config t) :
      Turned config (⟨.tryBeginTurn, true⟩ :: t ++ [⟨.endTurn result, ()⟩])

theorem turned_of_path {starter : Starter} {outcome : Except String TurnResult}
    (h : Path (turn config starter) trace outcome) : Turned config (core trace) := by
  obtain ⟨claimed, t, rfl, k₁⟩ := path_effect_iff.mp h
  rw [core_cons_of_essential rfl]
  cases claimed with
  | false =>
    obtain ⟨rfl, -⟩ := path_done_iff.mp k₁
    exact .busy
  | true =>
    rw [if_pos rfl] at k₁
    cases starter with
    | action text bus =>
      obtain ⟨t₁, result, t, rfl, h₁, k₂⟩ := path_bind_iff.mp k₁
      obtain ⟨_, t, rfl, k₃⟩ := path_effect_iff.mp k₂
      obtain ⟨rfl, -⟩ := path_done_iff.mp k₃
      rw [core_append, core_cons_of_essential rfl, core_nil]
      exact .turned (spoken_of_path h₁)
    | tick =>
      obtain ⟨t₁, result, t, rfl, h₁, k₂⟩ := path_bind_iff.mp k₁
      obtain ⟨_, t, rfl, k₃⟩ := path_effect_iff.mp k₂
      obtain ⟨rfl, -⟩ := path_done_iff.mp k₃
      rw [core_append, core_cons_of_essential rfl, core_nil]
      exact .turned (spoken_of_path h₁)
    | ptt =>
      obtain ⟨_, t, rfl, k₂⟩ := path_effect_iff.mp k₁
      obtain ⟨t₁, result, t, rfl, h₁, k₃⟩ := path_bind_iff.mp k₂
      obtain ⟨_, t, rfl, k₄⟩ := path_effect_iff.mp k₃
      obtain ⟨_, t, rfl, k₅⟩ := path_effect_iff.mp k₄
      obtain ⟨rfl, -⟩ := path_done_iff.mp k₅
      rw [core_cons_of_not rfl, core_append, core_cons_of_not rfl, core_cons_of_essential rfl, core_nil]
      exact .turned (spoken_of_ptt h₁)

/-! ## Leaks -/

/-- A turn closes all it has opened exactly if its calls were answered as they should be. -/
theorem noLeak_iff_of_turned (h : Turned config trace) : NoLeak trace ↔ AllRegular trace := by
  cases h with
  | busy => simp [NoLeak, Closed, AllRegular, Regular]
  | turned h =>
    cases h with
    | text => simp [NoLeak, Closed, AllRegular, Regular]
    | listened h =>
      cases h with
      | failed h =>
        cases h with
        | refused => simp [NoLeak, Closed, AllRegular, Regular]
        | noMic => simp [NoLeak, Closed, AllRegular, Regular]
        | noSession hmic =>
          simpa [NoLeak, Closed, AllRegular, Regular, listening, opensStream, hmic] using and_comm
      | captured h h' =>
        cases h with
        | started hmic =>
          cases h' with
          | refused =>
            simpa [NoLeak, Closed, AllRegular, Regular, listening, opensStream, hmic] using and_comm
          | finished => simp [NoLeak, Closed, AllRegular, Regular, listening, opensStream, hmic]

/-- A voice turn of any mode, whatever is answered to its calls, closes the stream, the session and the
    slot that it has opened exactly if each call that took effect was answered with it, and, where a
    stream was opened, the microphone gave its session a name and was stopped without an error. -/
theorem turn_leaks_nothing_iff (config : DaemonConfig) (starter : Starter) {trace : List Event}
    {outcome : Except String TurnResult} (h : Path (turn config starter) trace outcome) :
    NoLeak trace ↔ AllRegular trace := by
  rw [← noLeak_core, ← allRegular_core]
  exact noLeak_iff_of_turned (turned_of_path h)

def silence : Json := .obj [("text", .str "")]

def named : Json := .obj [("session_id", .str "session-1")]

/-- A turn with a window of silence. -/
def silentTurn : List Event :=
  [⟨.tryBeginTurn, true⟩, openStream {} (.ok .null) (some ""), openMic {} (.ok named) (some "session-1"),
    ⟨.setCapturing true, ()⟩, ⟨.sleep 6000, ()⟩, closeMic "session-1" (.ok .null) none,
    closeStream {} (.ok silence) none, ⟨.setCapturing false, ()⟩, ⟨.recentContext, ""⟩,
    ⟨.rememberExchange "" { status := "silent" }, ()⟩, ⟨.endTurn { status := "silent" }, ()⟩]

theorem path_silentTurn :
    Path (turn {} (.action none true)) silentTurn (.ok { status := "silent" }) :=
  .call <| .call <| .call <| .call <| .call <| .call <| .call <| .call <| .call <| .call <| .call .done

theorem turn_leaks_nothing_sample : NoLeak silentTurn := by
  refine (turn_leaks_nothing_iff {} (.action none true) path_silentTurn).mpr ?_
  simp [AllRegular, silentTurn, Regular, listening, opensStream, named, member, Json.get, Json.fields, Json.asStr]

/-- A turn whose `mic_start` is answered with a timeout after it took effect. -/
def brokenTurn : List Event :=
  [⟨.tryBeginTurn, true⟩, openStream {} (.ok .null) (some ""), openMic {} (.error "timed out") (some "s"),
    closeStream {} (.ok silence) none, ⟨.endTurn { status := "error", error := some "timed out" }, ()⟩]

theorem path_brokenTurn :
    Path (turn {} (.action none true)) brokenTurn
      (.ok { status := "error", error := some "timed out" }) :=
  .call <| .call <| .call <| .call <| .call .done

/-- No `mic_stop` follows, and the microphone stays open. -/
theorem microphone_stays_open :
    ¬ ∀ (config : DaemonConfig) (starter : Starter) (trace : List Event)
      (outcome : Except String TurnResult), Path (turn config starter) trace outcome → NoLeak trace := by
  intro hall
  obtain ⟨-, -, hmic, -⟩ := hall {} (.action none true) brokenTurn _ path_brokenTurn
  have hstop := hmic "s" rfl
  simp [asked] at hstop

end Turn

end Audio
