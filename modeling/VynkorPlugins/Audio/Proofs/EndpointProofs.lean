import VynkorPlugins.Audio.Turn

/-!
# Proofs: the endpoint of a capture

A capture that waits for the end of speech has a fixed deadline until speech starts, and from then on one
that starts again at every event; one that waits for a released key has only the second kind.
-/

namespace Audio

open Deadline

variable {config : DaemonConfig} {eventsFirst : Bool} {arrivals rest : List (Arrival BusEvent)}
  {a s : Arrival BusEvent} {idle now : Nat}

/-! ## The loops -/

namespace DaemonConfig

def heardStart (config : DaemonConfig) (e : BusEvent) : Bool :=
  !e.lost && config.isStarted e

def heardEnd (config : DaemonConfig) (e : BusEvent) : Bool :=
  !e.lost && config.isEnded e

def heardRelease (config : DaemonConfig) (e : BusEvent) : Bool :=
  !e.lost && config.isRelease e

theorem isStarted_of_heard {e : BusEvent} (h : config.heardStart e = true) : config.isStarted e = true :=
  (Bool.and_eq_true_iff.mp h).2

theorem isEnded_of_heard {e : BusEvent} (h : config.heardEnd e = true) : config.isEnded e = true :=
  (Bool.and_eq_true_iff.mp h).2

theorem started_ne_ended (config : DaemonConfig) : config.speechStartedEvent ≠ config.speechEndedEvent := by
  intro h
  have hlength := congrArg String.length h
  simp only [speechStartedEvent, speechEndedEvent, String.length_append] at hlength
  have hne : ".stt_speech_started".length ≠ ".stt_speech_ended".length := by decide
  omega

end DaemonConfig

/-- Before speech starts. -/
theorem speechEndLoop_idle_cons :
    speechEndLoop config eventsFirst false idle now (a :: rest) =
      if before eventsFirst a.time idle then
        if config.heardStart a.event then
          speechEndLoop config eventsFirst true (max now a.time + config.vad_wait_ms) (max now a.time) rest
        else if config.heardEnd a.event then (max now a.time, .Ended)
        else speechEndLoop config eventsFirst false idle (max now a.time) rest
      else (idle, .Silent) := by
  rw [speechEndLoop]
  simp only [Bool.false_eq_true, if_false, DaemonConfig.heardStart, DaemonConfig.heardEnd,
    DaemonConfig.isStarted, DaemonConfig.isEnded]
  by_cases hlost : a.event.lost = true
  · simp [hlost]
  · by_cases hours : config.ours a.event = true
    · simp [hlost, hours]
    · simp [hlost, hours]

/-- While somebody speaks. -/
theorem speechEndLoop_speaking :
    speechEndLoop config eventsFirst true idle now arrivals =
      ((restarting eventsFirst config.heardEnd config.vad_max_utterance_ms now arrivals).1,
        if (restarting eventsFirst config.heardEnd config.vad_max_utterance_ms now arrivals).2 then .Ended
        else .MaxUtterance) := by
  induction arrivals generalizing now with
  | nil => rw [speechEndLoop, restarting]; rfl
  | cons a rest ih =>
    rw [speechEndLoop, restarting]
    simp only [if_true, Bool.true_eq_false, and_false, if_false]
    by_cases hbefore : before eventsFirst a.time (now + config.vad_max_utterance_ms) = true
    · rw [if_pos hbefore, if_pos hbefore, ih]
      by_cases hlost : a.event.lost = true
      · simp [hlost, DaemonConfig.heardEnd]
      · by_cases hours : config.ours a.event = true
        · by_cases hended : a.event.etype = config.speechEndedEvent
          · simp [hlost, hours, hended, DaemonConfig.heardEnd, DaemonConfig.isEnded]
          · simp [hlost, hours, hended, DaemonConfig.heardEnd, DaemonConfig.isEnded]
        · simp [hlost, hours, DaemonConfig.heardEnd, DaemonConfig.isEnded]
    · rw [if_neg hbefore, if_neg hbefore]
      rfl

theorem releaseLoop_time :
    (releaseLoop config eventsFirst now arrivals).1
      = (restarting eventsFirst config.heardRelease config.ptt_max_hold_ms now arrivals).1 := by
  induction arrivals generalizing now with
  | nil => rfl
  | cons a rest ih =>
    rw [releaseLoop, restarting]
    by_cases hbefore : before eventsFirst a.time (now + config.ptt_max_hold_ms) = true
    · rw [if_pos hbefore, if_pos hbefore]
      by_cases hlost : a.event.lost = true
      · simp [hlost, DaemonConfig.heardRelease, ih]
      · by_cases hrelease : config.isRelease a.event = true
        · simp [hlost, hrelease, DaemonConfig.heardRelease]
        · simp [hlost, hrelease, DaemonConfig.heardRelease, ih]
    · rw [if_neg hbefore, if_neg hbefore]

/-! ## Waiting for speech -/

/-- The arrivals are in order, and none of them was before now. -/
structure Ahead (now : Nat) (arrivals : List (Arrival BusEvent)) : Prop where
  sorted : Sorted arrivals
  le : ∀ a ∈ arrivals, now ≤ a.time

theorem Ahead.head (h : Ahead now (a :: rest)) : max now a.time = a.time :=
  max_eq_right (h.le a List.mem_cons_self)

theorem Ahead.tail (h : Ahead now (a :: rest)) : Ahead a.time rest :=
  ⟨h.sorted.of_cons, fun _ hb => List.rel_of_pairwise_cons h.sorted hb⟩

/-- The wait is over when an ended event is heard, at the latest. -/
theorem speechEnd_le_of_ended (h : Ahead now arrivals) (ha : a ∈ arrivals)
    (hended : config.heardEnd a.event = true) :
    (speechEndLoop config eventsFirst false idle now arrivals).1 ≤ a.time := by
  induction arrivals generalizing now with
  | nil => cases ha
  | cons b rest ih =>
    have hba : b.time ≤ a.time := by
      rcases List.mem_cons.mp ha with rfl | ha
      · exact le_refl _
      · exact h.tail.le a ha
    rw [speechEndLoop_idle_cons, h.head]
    split_ifs with hbefore hstart hend
    · rcases List.mem_cons.mp ha with rfl | ha
      · have hne := (of_decide_eq_true (DaemonConfig.isStarted_of_heard hstart)).2
        have heq := (of_decide_eq_true (DaemonConfig.isEnded_of_heard hended)).2
        exact (config.started_ne_ended (hne.symm.trans heq)).elim
      · rw [speechEndLoop_speaking]
        exact (restarting_le_of_ends h.tail.sorted ha hended).trans (max_le hba (le_refl _))
    · exact hba
    · rcases List.mem_cons.mp ha with rfl | ha
      · exact (hend hended).elim
      · exact ih h.tail ha
    · exact (le_of_not_before (Bool.eq_false_of_not_eq_true hbefore)).trans hba

/-- Where no speech is heard before the deadline, the wait is over by then. -/
theorem speechEnd_le_of_silent (h : Ahead now arrivals)
    (hsilent : ∀ a ∈ arrivals, config.heardStart a.event = true → before eventsFirst a.time idle = false) :
    (speechEndLoop config eventsFirst false idle now arrivals).1 ≤ idle := by
  induction arrivals generalizing now with
  | nil => rw [speechEndLoop]; exact le_refl _
  | cons a rest ih =>
    rw [speechEndLoop_idle_cons, h.head]
    split_ifs with hbefore hstart hend
    · rw [hsilent a List.mem_cons_self hstart] at hbefore
      cases hbefore
    · exact le_of_before hbefore
    · exact ih h.tail fun b hb => hsilent b (List.mem_cons_of_mem a hb)
    · exact le_refl _

/-- Where nothing is heard between the first start of speech and its limit, the wait is over by then. -/
theorem speechEnd_le_of_capped (h : Ahead now arrivals) (hs : s ∈ arrivals)
    (hstart : config.heardStart s.event = true) (hbefore : before eventsFirst s.time idle = true)
    (hfirst : ∀ a ∈ arrivals, config.heardStart a.event = true → s.time ≤ a.time)
    (hquiet : ∀ a ∈ arrivals, a.time ≤ s.time ∨
      before eventsFirst a.time (s.time + config.vad_max_utterance_ms) = false) :
    (speechEndLoop config eventsFirst false idle now arrivals).1
      ≤ s.time + config.vad_max_utterance_ms := by
  induction arrivals generalizing now with
  | nil => cases hs
  | cons a rest ih =>
    have has : a.time ≤ s.time := by
      rcases List.mem_cons.mp hs with rfl | hs
      · exact le_refl _
      · exact h.tail.le s hs
    have hrest := fun b (hb : b ∈ rest) => hquiet b (List.mem_cons_of_mem a hb)
    rw [speechEndLoop_idle_cons, h.head, if_pos (before_of_le hbefore has)]
    split_ifs with hastart hend
    · -- Speech starts here, at the time of `s` if not with it.
      have htime : a.time = s.time := le_antisymm has (hfirst a List.mem_cons_self hastart)
      rw [speechEndLoop_speaking, htime]
      exact restarting_le_of_quiet hrest
    · exact has.trans (Nat.le_add_right _ _)
    · rcases List.mem_cons.mp hs with rfl | hs
      · exact (hastart hstart).elim
      · exact ih h.tail hs (fun b hb => hfirst b (List.mem_cons_of_mem a hb)) hrest

/-- How the wait ends: at an ended event that comes before the deadline or after a start of speech, at the
    deadline without speech, or a limit after the event that woke it last since speech started. -/
theorem speechEnd_cases (config : DaemonConfig) (eventsFirst : Bool) (idle : Nat)
    (h : Ahead now arrivals) :
    (∃ e ∈ arrivals, config.heardEnd e.event = true ∧
      (e.time ≤ idle ∨ ∃ s ∈ arrivals, config.heardStart s.event = true ∧ s.time ≤ e.time) ∧
      (speechEndLoop config eventsFirst false idle now arrivals).1 = e.time) ∨
    ((speechEndLoop config eventsFirst false idle now arrivals).1 = idle ∧
      ∀ a ∈ arrivals, config.heardStart a.event = true → before eventsFirst a.time idle = false) ∨
    ∃ s ∈ arrivals, config.heardStart s.event = true ∧ before eventsFirst s.time idle = true ∧
      ∃ w, s.time ≤ w ∧ (speechEndLoop config eventsFirst false idle now arrivals).1
        = w + config.vad_max_utterance_ms ∧
        (w = s.time → ∀ a ∈ arrivals, a.time ≤ s.time ∨
          before eventsFirst a.time (s.time + config.vad_max_utterance_ms) = false) := by
  induction arrivals generalizing now with
  | nil =>
    refine .inr (.inl ⟨?_, fun a ha => nomatch ha⟩)
    rw [speechEndLoop]
    rfl
  | cons a rest ih =>
    rw [speechEndLoop_idle_cons, h.head]
    split_ifs with hbefore hstart hend
    · rw [speechEndLoop_speaking]
      rcases restarting_cases eventsFirst config.heardEnd config.vad_max_utterance_ms a.time h.tail.sorted
        with ⟨e, he, hended, heq⟩ | ⟨w, hw, heq, hquiet⟩
      · have hae : a.time ≤ e.time := h.tail.le e he
        refine .inl ⟨e, List.mem_cons_of_mem a he, hended, .inr ⟨a, List.mem_cons_self, hstart, hae⟩, ?_⟩
        rw [heq]
        exact max_eq_right hae
      · refine .inr (.inr ⟨a, List.mem_cons_self, hstart, hbefore, w, hw, ?_, fun hwa b hb => ?_⟩)
        · rw [heq]
        · rcases List.mem_cons.mp hb with rfl | hb
          · exact .inl (le_refl _)
          · exact hquiet hwa b hb
    · exact .inl ⟨a, List.mem_cons_self, hend, .inl (le_of_before hbefore), rfl⟩
    · rcases ih h.tail with ⟨e, he, hended, htime, heq⟩ | ⟨heq, hsilent⟩ |
        ⟨s, hs, hstarted, hbs, w, hw, heq, hquiet⟩
      · refine .inl ⟨e, List.mem_cons_of_mem a he, hended, htime.imp_right ?_, heq⟩
        rintro ⟨s, hs, hrest⟩
        exact ⟨s, List.mem_cons_of_mem a hs, hrest⟩
      · refine .inr (.inl ⟨heq, fun b hb hbstart => ?_⟩)
        rcases List.mem_cons.mp hb with rfl | hb
        · exact (hstart hbstart).elim
        · exact hsilent b hb hbstart
      · refine .inr (.inr ⟨s, List.mem_cons_of_mem a hs, hstarted, hbs, w, hw, heq, fun hws b hb => ?_⟩)
        rcases List.mem_cons.mp hb with rfl | hb
        · exact .inl (h.tail.le s hs)
        · exact hquiet hws b hb
    · refine .inr (.inl ⟨rfl, fun b hb _ => ?_⟩)
      have hnot := Bool.eq_false_of_not_eq_true hbefore
      rcases List.mem_cons.mp hb with rfl | hb
      · exact hnot
      · exact not_before_of_le hnot (h.tail.le b hb)

/-- A wait that ends before any speech is heard ends by the deadline for it. -/
theorem speechEnd_le_idle (h : Ahead now arrivals)
    (hnone : ∀ a ∈ arrivals, config.heardStart a.event = true →
      (speechEndLoop config eventsFirst false idle now arrivals).1 < a.time) :
    (speechEndLoop config eventsFirst false idle now arrivals).1 ≤ idle := by
  rcases speechEnd_cases config eventsFirst idle h with
    ⟨e, he, hended, htime | ⟨s, hs, hstart, hse⟩, heq⟩ | ⟨heq, -⟩ | ⟨s, hs, hstart, -, w, hw, heq, -⟩
  · exact heq.trans_le htime
  · have hlt := hnone s hs hstart
    omega
  · exact heq.le
  · have hlt := hnone s hs hstart
    omega

/-! ## The bounds -/

variable {t : Timeline} {T : Nat}

theorem Timeline.ahead (t : Timeline) : Ahead t.began t.waiting :=
  ⟨(List.pairwise_append.mp t.sorted).2.1, t.le_waiting⟩

theorem Timeline.mem_published (h : a ∈ t.waiting) : a ∈ t.published :=
  List.mem_append_right _ h

/-- The bounds of a wait in vad mode that ends at `T`, over all that was published since the capture began
    to open. -/
structure VadBounded (config : DaemonConfig) (t : Timeline) (T : Nat) : Prop where
  idle : (∀ a ∈ t.published, config.isStarted a.event → T < a.time) → T ≤ t.began + config.vad_wait_ms
  cap : ∀ a ∈ t.published, config.isStarted a.event → T ≤ a.time + config.vad_max_utterance_ms
  ended : ∀ a ∈ t.published, config.isEnded a.event → T ≤ max t.began a.time

/-- The end of speech is heard: no other one was published before it, and it is in time for every start
    of speech. -/
def EndHeard (config : DaemonConfig) (t : Timeline) : Prop :=
  ∃ e ∈ t.waiting, config.heardEnd e.event ∧
    (∀ a ∈ t.published, config.isStarted a.event → e.time ≤ a.time + config.vad_max_utterance_ms) ∧
    ∀ a ∈ t.published, config.isEnded a.event → e.time ≤ max t.began a.time

/-- No speech is heard until the deadline for it, and none was published that the deadline is too late
    for. -/
def NothingHeard (config : DaemonConfig) (t : Timeline) : Prop :=
  (∀ a ∈ t.waiting, config.heardStart a.event →
    before t.eventsFirst a.time (t.began + config.vad_wait_ms) = false) ∧
  (∀ a ∈ t.published, config.isStarted a.event →
    t.began + config.vad_wait_ms ≤ a.time + config.vad_max_utterance_ms) ∧
  ∀ a ∈ t.published, config.isEnded a.event → t.began + config.vad_wait_ms ≤ max t.began a.time

/-- The first start of speech is heard, and then nothing arrives until its limit. -/
def QuietSpeech (config : DaemonConfig) (t : Timeline) : Prop :=
  ∃ s ∈ t.waiting, config.heardStart s.event ∧
    before t.eventsFirst s.time (t.began + config.vad_wait_ms) = true ∧
    (∀ a ∈ t.published, config.isStarted a.event → s.time ≤ a.time) ∧
    (∀ a ∈ t.waiting, a.time ≤ s.time ∨
      before t.eventsFirst a.time (s.time + config.vad_max_utterance_ms) = false) ∧
    ∀ a ∈ t.published, config.isEnded a.event →
      s.time + config.vad_max_utterance_ms ≤ max t.began a.time

theorem vadBounded_iff (config : DaemonConfig) (t : Timeline) :
    VadBounded config t (waitForSpeechEnd config t).1 ↔
      EndHeard config t ∨ NothingHeard config t ∨ QuietSpeech config t := by
  unfold waitForSpeechEnd
  constructor
  · intro h
    rcases speechEnd_cases config t.eventsFirst (t.began + config.vad_wait_ms) t.ahead with
      ⟨e, he, hended, -, heq⟩ | ⟨heq, hsilent⟩ | ⟨s, hs, hstart, hbefore, w, hw, heq, hquiet⟩
    · refine .inl ⟨e, he, hended, ?_, ?_⟩
      · exact heq ▸ h.cap
      · exact heq ▸ h.ended
    · refine .inr (.inl ⟨hsilent, ?_, ?_⟩)
      · exact heq ▸ h.cap
      · exact heq ▸ h.ended
    · have hws : w = s.time := by
        have hcap := h.cap s (t.mem_published hs) (DaemonConfig.isStarted_of_heard hstart)
        rw [heq] at hcap
        omega
      rw [hws] at heq
      refine .inr (.inr ⟨s, hs, hstart, hbefore, fun a ha hastart => ?_, hquiet hws, ?_⟩)
      · have hcap := h.cap a ha hastart
        rw [heq] at hcap
        omega
      · exact heq ▸ h.ended
  · intro h
    -- Whatever is heard, the deadline for speech is kept; the rest follows from when the wait is over.
    have hbounded : ∀ T', (speechEndLoop config t.eventsFirst false (t.began + config.vad_wait_ms) t.began
        t.waiting).1 ≤ T' →
        (∀ a ∈ t.published, config.isStarted a.event → T' ≤ a.time + config.vad_max_utterance_ms) →
        (∀ a ∈ t.published, config.isEnded a.event → T' ≤ max t.began a.time) →
        VadBounded config t (speechEndLoop config t.eventsFirst false (t.began + config.vad_wait_ms)
          t.began t.waiting).1 := by
      intro T' hle hcap hended
      refine ⟨fun hnone => speechEnd_le_idle t.ahead fun a ha hstart => ?_, ?_, ?_⟩
      · exact hnone a (t.mem_published ha) (DaemonConfig.isStarted_of_heard hstart)
      · exact fun a ha hstart => hle.trans (hcap a ha hstart)
      · exact fun a ha hend => hle.trans (hended a ha hend)
    rcases h with ⟨e, he, hheard, hcap, hended⟩ | ⟨hsilent, hcap, hended⟩ |
      ⟨s, hs, hstart, hbefore, hfirst, hquiet, hended⟩
    · exact hbounded e.time (speechEnd_le_of_ended t.ahead he hheard) hcap hended
    · exact hbounded _ (speechEnd_le_of_silent t.ahead hsilent) hcap hended
    · refine hbounded _ (speechEnd_le_of_capped t.ahead hs hstart hbefore (fun a ha hastart => ?_) hquiet)
        (fun a ha hastart => ?_) hended
      · exact hfirst a (t.mem_published ha) (DaemonConfig.isStarted_of_heard hastart)
      · have hle := hfirst a ha hastart
        omega

/-- The bounds of a wait in push-to-talk mode that ends at `T`, over all that was published since the
    press. -/
structure PttBounded (config : DaemonConfig) (t : Timeline) (T : Nat) : Prop where
  released : ∀ a ∈ t.published, config.isRelease a.event → T ≤ max t.began a.time
  hold : T ≤ t.began + config.ptt_max_hold_ms

/-- The release is heard in time, and no other one was published before it. -/
def ReleaseHeard (config : DaemonConfig) (t : Timeline) : Prop :=
  ∃ r ∈ t.published, config.heardRelease r.event ∧ r.time ≤ t.began + config.ptt_max_hold_ms ∧
    ∀ a ∈ t.published, config.isRelease a.event → max t.began r.time ≤ max t.began a.time

/-- Nothing arrives between the opening of the capture and the longest hold. -/
def QuietHold (config : DaemonConfig) (t : Timeline) : Prop :=
  (∀ a ∈ t.published, a.time ≤ t.began ∨
    before t.eventsFirst a.time (t.began + config.ptt_max_hold_ms) = false) ∧
  ∀ a ∈ t.published, config.isRelease a.event →
    t.began + config.ptt_max_hold_ms ≤ max t.began a.time

theorem pttBounded_iff (config : DaemonConfig) (t : Timeline) :
    PttBounded config t (waitForRelease config t).1 ↔ ReleaseHeard config t ∨ QuietHold config t := by
  rw [waitForRelease, releaseLoop_time]
  constructor
  · intro h
    rcases restarting_cases t.eventsFirst config.heardRelease config.ptt_max_hold_ms t.began t.sorted with
      ⟨r, hr, hheard, heq⟩ | ⟨w, hw, heq, hquiet⟩
    · rw [Timeline.published, heq] at h
      refine .inl ⟨r, hr, hheard, (le_max_right _ _).trans h.hold, h.released⟩
    · rw [Timeline.published, heq] at h
      have hwb : w = t.began := by
        have hhold : w + config.ptt_max_hold_ms ≤ t.began + config.ptt_max_hold_ms := h.hold
        omega
      exact .inr ⟨hquiet hwb, hwb ▸ h.released⟩
  · rintro (⟨r, hr, hheard, htime, hfirst⟩ | ⟨hquiet, hreleased⟩)
    · refine ⟨fun a ha hrelease => ?_, ?_⟩
      · exact (restarting_le_of_ends t.sorted hr hheard).trans (hfirst a ha hrelease)
      · refine (restarting_le_of_ends t.sorted hr hheard).trans ?_
        exact max_le (Nat.le_add_right _ _) htime
    · refine ⟨fun a ha hrelease => ?_, restarting_le_of_quiet hquiet⟩
      exact (restarting_le_of_quiet hquiet).trans (hreleased a ha hrelease)

/-- Speech starts at one second, and an event of another stream comes fifteen seconds later. -/
def chatter : Timeline where
  began := 0
  opening := []
  waiting :=
    [⟨1000, { etype := "plugin.stt.stt_speech_started", payload := .obj [("stream_id", .int 7)] }⟩,
      ⟨16000, { etype := "plugin.stt.stt_speech_started", payload := .obj [("stream_id", .int 8)] }⟩]
  eventsFirst := true
  opening_le := nofun
  le_waiting := fun _ _ => Nat.zero_le _
  sorted := by
    refine List.Pairwise.cons (fun b hb => ?_) (List.pairwise_singleton _ _)
    rw [List.mem_singleton.mp hb]
    decide

end Audio
