import VynkorPlugins.Audio.VoiceActivity

/-!
# What the voice detector measures

The detector counts what a listener hears as long as its numbers are those of the durations.
-/

namespace Audio

variable {cfg : VadConfig} {rate_hz : Nat} {mono : List Int16} {chunks : List (List Int16)} {s : VadState}
  {h : Heard}

theorem clamped_bounds {α : Type} [LE α] [LT α] [DecidableLT α] [Std.IsLinearOrder α] [Std.LawfulOrderLT α]
    {var : Option String} {parse : String → Option α} {lo hi old : α} (hlo : lo ≤ old) (hhi : old ≤ hi) :
    lo ≤ VadConfig.clamped var parse lo hi old ∧ VadConfig.clamped var parse lo hi old ≤ hi := by
  have hrange : lo ≤ hi := Std.le_trans hlo hhi
  unfold VadConfig.clamped
  cases var.bind parse with
  | none => exact ⟨hlo, hhi⟩
  | some n =>
    dsimp only
    split_ifs with hless hmore
    · exact ⟨Std.le_refl lo, hrange⟩
    · exact ⟨hrange, Std.le_refl hi⟩
    · exact ⟨Std.not_lt.mp hless, Std.not_lt.mp hmore⟩

/-- Whatever the environment says, the settings are in their ranges. -/
theorem from_env_inRange (var : String → Option String) : (VadConfig.from_env var).InRange where
  rms_threshold := clamped_bounds (by decide) (by decide)
  silence_ms := clamped_bounds (by decide) (by decide)
  min_speech_ms := clamped_bounds (by decide) (by decide)

/-- The duration of a chunk that the detector adds up. -/
def counted (mono : List Int16) (rate_hz : Nat) : Nat := (chunk_ms mono rate_hz).toUInt32.toNat

/-- The duration of two chunks that the detector makes of the second one. -/
def countedTwice (mono : List Int16) (rate_hz : Nat) : Nat :=
  (chunk_ms mono rate_hz * Float32.ofNat 2).toUInt32.toNat

/-- The numbers of the detector at a chunk are the durations: where speech starts, twice the chunk is the two
chunks, and later on the chunk is counted as it is and the sum fits. -/
def Heard.fair (cfg : VadConfig) (rate_hz : Nat) (h : Heard) (mono : List Int16) : Bool :=
  match h, cfg.loud mono with
  | idle (some before), true => countedTwice mono rate_hz = before + duration mono rate_hz
  | idle _, _ => true
  | speaking spoken _, true =>
    counted mono rate_hz = duration mono rate_hz && spoken.sum + duration mono rate_hz < 2 ^ 32
  | speaking _ quiet, false =>
    counted mono rate_hz = duration mono rate_hz && quiet.sum + duration mono rate_hz < 2 ^ 32

/-- All chunks are fair, each after what was heard before it. -/
def Heard.allFair (cfg : VadConfig) (rate_hz : Nat) (h : Heard) : List (List Int16) → Bool
  | [] => true
  | mono :: chunks =>
    h.fair cfg rate_hz mono &&
      (h.hear cfg (cfg.loud mono) (duration mono rate_hz)).1.allFair cfg rate_hz chunks

/-- The detector's counters are what was heard. -/
inductive Counts : VadState → Heard → Prop
  | idle : Counts {} (.idle none)
  | streak (ms : Nat) : Counts { loud_streak := 1 } (.idle (some ms))
  | speaking {speech_ms silence_ms : UInt32} {spoken quiet : List Nat} (hspeech : speech_ms.toNat = spoken.sum)
      (hsilence : silence_ms.toNat = quiet.sum) :
      Counts ⟨true, 2, speech_ms, silence_ms⟩ (.speaking spoken quiet)

theorem toNat_add_of_lt {a b : UInt32} (h : a.toNat + b.toNat < 2 ^ 32) :
    (a + b).toNat = a.toNat + b.toNat := by
  rw [UInt32.toNat_add]
  exact Nat.mod_eq_of_lt h

/-- A chunk is taken by an idle detector. -/
theorem feed_idle (henabled : cfg.enabled = true) (hrate : rate_hz ≠ 0) (hmono : mono ≠ [])
    (hcounts : Counts s (.idle none)) :
    (s.feed cfg mono rate_hz).2 = .None ∧
      Counts (s.feed cfg mono rate_hz).1 (.idle (if cfg.loud mono then some (duration mono rate_hz) else none)) := by
  have hgo : ¬ (cfg.enabled = false ∨ mono = [] ∨ rate_hz = 0) := by simp [henabled, hmono, hrate]
  cases hcounts with
  | idle =>
    unfold VadState.feed
    rw [if_neg hgo]
    dsimp only
    rw [if_pos rfl]
    by_cases hloud : cfg.loud mono = true
    · rw [if_pos hloud, if_pos hloud, if_neg (show ¬ START_STREAK ≤ 0 + 1 by decide)]
      exact ⟨rfl, .streak _⟩
    · rw [if_neg hloud, if_neg hloud]
      exact ⟨rfl, .idle⟩

/-- A second loud chunk starts speech. -/
theorem feed_streak (henabled : cfg.enabled = true) (hrate : rate_hz ≠ 0) (hmono : mono ≠ []) {before : Nat}
    (hcounts : Counts s (.idle (some before)))
    (hfair : cfg.loud mono = true → countedTwice mono rate_hz = before + duration mono rate_hz) :
    (s.feed cfg mono rate_hz).2 = (if cfg.loud mono then .SpeechStarted else .None) ∧
      Counts (s.feed cfg mono rate_hz).1
        (if cfg.loud mono then .speaking [before, duration mono rate_hz] [] else .idle none) := by
  have hgo : ¬ (cfg.enabled = false ∨ mono = [] ∨ rate_hz = 0) := by simp [henabled, hmono, hrate]
  cases hcounts with
  | streak =>
    unfold VadState.feed
    rw [if_neg hgo]
    dsimp only
    rw [if_pos rfl]
    by_cases hloud : cfg.loud mono = true
    · rw [if_pos hloud, if_pos hloud, if_pos hloud, if_pos (show START_STREAK ≤ 1 + 1 by decide)]
      refine ⟨rfl, .speaking ?_ rfl⟩
      have htwice := hfair hloud
      show countedTwice mono rate_hz = before + (duration mono rate_hz + 0)
      omega
    · rw [if_neg hloud, if_neg hloud, if_neg hloud]
      exact ⟨rfl, .idle⟩

/-- A loud chunk goes on with an utterance. -/
theorem feed_loud (henabled : cfg.enabled = true) (hrate : rate_hz ≠ 0) (hmono : mono ≠ [])
    {spoken quiet : List Nat} (hcounts : Counts s (.speaking spoken quiet)) (hloud : cfg.loud mono = true)
    (hcounted : counted mono rate_hz = duration mono rate_hz)
    (hfits : spoken.sum + duration mono rate_hz < 2 ^ 32) :
    (s.feed cfg mono rate_hz).2 = .None ∧
      Counts (s.feed cfg mono rate_hz).1 (.speaking (spoken ++ [duration mono rate_hz]) []) := by
  have hgo : ¬ (cfg.enabled = false ∨ mono = [] ∨ rate_hz = 0) := by simp [henabled, hmono, hrate]
  cases hcounts with
  | @speaking speech_ms silence_ms _ _ hspeech hsilence =>
    unfold VadState.feed
    rw [if_neg hgo]
    dsimp only
    rw [if_neg (show ¬ true = false by decide), if_pos hloud]
    refine ⟨rfl, .speaking ?_ rfl⟩
    have hadd : (speech_ms + (chunk_ms mono rate_hz).toUInt32).toNat =
        speech_ms.toNat + counted mono rate_hz := by
      refine toNat_add_of_lt ?_
      show speech_ms.toNat + counted mono rate_hz < 2 ^ 32
      omega
    rw [hadd, hspeech, hcounted, List.sum_append, List.sum_singleton]

/-- A quiet chunk ends an utterance once the silence is long enough. -/
theorem feed_quiet (henabled : cfg.enabled = true) (hrate : rate_hz ≠ 0) (hmono : mono ≠ [])
    {spoken quiet : List Nat} (hcounts : Counts s (.speaking spoken quiet)) (hloud : cfg.loud mono = false)
    (hcounted : counted mono rate_hz = duration mono rate_hz)
    (hfits : quiet.sum + duration mono rate_hz < 2 ^ 32) :
    (s.feed cfg mono rate_hz).2 =
        (((Heard.speaking spoken quiet).hear cfg false (duration mono rate_hz)).2) ∧
      Counts (s.feed cfg mono rate_hz).1
        (((Heard.speaking spoken quiet).hear cfg false (duration mono rate_hz)).1) := by
  have hgo : ¬ (cfg.enabled = false ∨ mono = [] ∨ rate_hz = 0) := by simp [henabled, hmono, hrate]
  cases hcounts with
  | @speaking speech_ms silence_ms _ _ hspeech hsilence =>
    have hadd : (silence_ms + (chunk_ms mono rate_hz).toUInt32).toNat =
        (quiet ++ [duration mono rate_hz]).sum := by
      have hsum : (silence_ms + (chunk_ms mono rate_hz).toUInt32).toNat =
          silence_ms.toNat + counted mono rate_hz := by
        refine toNat_add_of_lt ?_
        show silence_ms.toNat + counted mono rate_hz < 2 ^ 32
        omega
      rw [hsum, hsilence, hcounted, List.sum_append, List.sum_singleton]
    have hshort : silence_ms + (chunk_ms mono rate_hz).toUInt32 < cfg.silence_ms ↔
        (quiet ++ [duration mono rate_hz]).sum < cfg.silence_ms.toNat := by
      rw [UInt32.lt_iff_toNat_lt, hadd]
    have hlong : cfg.min_speech_ms ≤ speech_ms ↔ cfg.min_speech_ms.toNat ≤ spoken.sum := by
      rw [UInt32.le_iff_toNat_le, hspeech]
    unfold VadState.feed Heard.hear
    rw [if_neg hgo]
    dsimp only
    rw [if_neg (show ¬ true = false by decide), hloud, if_neg Bool.false_ne_true, if_neg Bool.false_ne_true]
    simp only [hshort, hlong, hspeech]
    by_cases hgoes : (quiet ++ [duration mono rate_hz]).sum < cfg.silence_ms.toNat
    · rw [if_pos hgoes, if_pos hgoes]
      exact ⟨rfl, .speaking hspeech hadd⟩
    · rw [if_neg hgoes, if_neg hgoes]
      exact ⟨rfl, .idle⟩

/-- At a fair chunk the detector reports what a listener does, and counts what it heard. -/
theorem feed_fair (henabled : cfg.enabled = true) (hrate : rate_hz ≠ 0) (hmono : mono ≠ [])
    (hcounts : Counts s h) (hfair : h.fair cfg rate_hz mono = true) :
    (s.feed cfg mono rate_hz).2 = (h.hear cfg (cfg.loud mono) (duration mono rate_hz)).2 ∧
      Counts (s.feed cfg mono rate_hz).1 (h.hear cfg (cfg.loud mono) (duration mono rate_hz)).1 := by
  cases h with
  | idle streak =>
    cases streak with
    | none => exact feed_idle henabled hrate hmono hcounts
    | some before =>
      have hstep := feed_streak henabled hrate hmono hcounts (by
        intro hloud
        unfold Heard.fair at hfair
        rw [hloud] at hfair
        exact of_decide_eq_true hfair)
      cases hloud : cfg.loud mono
      · rw [hloud] at hstep
        exact hstep
      · rw [hloud] at hstep
        exact hstep
  | speaking spoken quiet =>
    unfold Heard.fair at hfair
    cases hloud : cfg.loud mono with
    | true =>
      rw [hloud] at hfair
      rw [Bool.and_eq_true, decide_eq_true_eq, decide_eq_true_eq] at hfair
      exact feed_loud henabled hrate hmono hcounts hloud hfair.1 hfair.2
    | false =>
      rw [hloud] at hfair
      rw [Bool.and_eq_true, decide_eq_true_eq, decide_eq_true_eq] at hfair
      exact feed_quiet henabled hrate hmono hcounts hloud hfair.1 hfair.2

theorem feeds_fair (henabled : cfg.enabled = true) (hrate : rate_hz ≠ 0) (hmono : ∀ mono ∈ chunks, mono ≠ [])
    (hcounts : Counts s h) (hfair : h.allFair cfg rate_hz chunks = true) :
    s.feeds cfg rate_hz chunks = h.hears cfg rate_hz chunks := by
  induction chunks generalizing s h with
  | nil => rfl
  | cons mono chunks ih =>
    unfold Heard.allFair at hfair
    rw [Bool.and_eq_true] at hfair
    obtain ⟨hout, hnext⟩ := feed_fair henabled hrate (hmono mono List.mem_cons_self) hcounts hfair.1
    have hrest := ih (fun m hm => hmono m (List.mem_cons_of_mem mono hm)) hnext hfair.2
    show (s.feed cfg mono rate_hz).2 :: (s.feed cfg mono rate_hz).1.feeds cfg rate_hz chunks = _
    rw [hout, hrest]
    rfl

end Audio
