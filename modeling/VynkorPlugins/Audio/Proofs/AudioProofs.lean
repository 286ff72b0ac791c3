import Mathlib.Tactic.Ring
import VynkorPlugins.Audio.Capture

/-!
# Proofs: captures and listen streams

The chunks of a capture are its sound cut at every multiple of the chunk size. A listen stream mixes
each chunk down by itself, so it recovers the whole sound exactly if no chunk ends inside of a frame.
-/

namespace Audio

open Pieces

variable {V : Type} {detector : Vad V} {channels : Nat} {a b data : List UInt8}

/-! ## Mixing down -/

theorem samples_append (h : 2 ∣ a.length) (b : List UInt8) : samples (a ++ b) = samples a ++ samples b := by
  rw [samples, chunksExact_append Nat.two_pos h, List.map_append]
  rfl

theorem length_samples (data : List UInt8) : (samples data).length = data.length / 2 := by
  rw [samples, List.length_map, length_chunksExact Nat.two_pos]

theorem samples_short (h : a.length < 2) : samples a = [] := by
  rw [samples, chunksExact, cut_of_lt h, List.map_nil]

theorem downmix_append {s : List Int16} (hc : 0 < channels) (h : channels ∣ s.length) (t : List Int16) :
    downmix (s ++ t) channels = downmix s channels ++ downmix t channels := by
  unfold downmix
  split_ifs
  · rfl
  · rw [chunksExact_append hc h, List.map_append]

theorem length_downmix (hc : 0 < channels) (s : List Int16) :
    (downmix s channels).length = s.length / channels := by
  unfold downmix
  split_ifs with h1
  · have hone : channels = 1 := by omega
    rw [hone, Nat.div_one]
  · rw [List.length_map, length_chunksExact hc]

/-- The mono samples of some bytes of a stream. -/
def mono (channels : Nat) (data : List UInt8) : List Int16 :=
  downmix (samples data) channels

theorem length_mono (hc : 0 < channels) (data : List UInt8) :
    (mono channels data).length = data.length / 2 / channels := by
  rw [mono, length_downmix hc, length_samples]

theorem mono_append (hc : 0 < channels) (h : 2 * channels ∣ a.length) (b : List UInt8) :
    mono channels (a ++ b) = mono channels a ++ mono channels b := by
  have hframes : channels ∣ (samples a).length := by
    rw [length_samples]
    exact Nat.dvd_div_of_mul_dvd h
  rw [mono, samples_append (dvd_of_mul_right_dvd h), downmix_append hc hframes]
  rfl

theorem mono_flatten_append {pieces : List (List UInt8)} (hc : 0 < channels)
    (h : ∀ p ∈ pieces, 2 * channels ∣ p.length) (b : List UInt8) :
    mono channels (pieces.flatten ++ b) = (pieces.map (mono channels)).flatten ++ mono channels b := by
  induction pieces with
  | nil => rfl
  | cons p pieces ih =>
    rw [List.flatten_cons, List.append_assoc, mono_append hc (h p List.mem_cons_self),
      ih fun q hq => h q (List.mem_cons_of_mem p hq), List.map_cons, List.flatten_cons,
      List.append_assoc]

/-- The bytes without the last one, if there is an odd number of them. -/
def whole (data : List UInt8) : List UInt8 :=
  data.take (data.length - data.length % 2)

theorem length_whole (data : List UInt8) : (whole data).length = data.length - data.length % 2 := by
  rw [whole, List.length_take]
  omega

theorem mono_whole (channels : Nat) (data : List UInt8) : mono channels (whole data) = mono channels data := by
  have hlength := length_whole data
  have heven : 2 ∣ (whole data).length := by omega
  have hshort : (data.drop (data.length - data.length % 2)).length < 2 := by
    rw [List.length_drop]
    omega
  have hsplit := samples_append heven (data.drop (data.length - data.length % 2))
  rw [whole, List.take_append_drop, samples_short hshort, List.append_nil] at hsplit
  rw [mono, mono, hsplit]
  rfl

/-! ## Captures -/

variable {session : SessionMeta} {reads : List (List UInt8)} {acc : List UInt8}

theorem two_le_frame (session : SessionMeta) : 2 ≤ session.frame :=
  le_max_right _ _

/-- The data chunks of some sound. -/
def dataChunks (session : SessionMeta) (pieces : List (List UInt8)) : List AudioStreamChunk :=
  pieces.map fun data => buildChunk session data false

/-- However the sound arrives, it is cut at every multiple of the chunk size. -/
theorem runCapture_eq (hreads : ∀ read ∈ reads, read ≠ []) (hacc : acc.length < session.frame) :
    session.runCapture acc reads
      = dataChunks session (cut session.frame (acc ++ reads.flatten)).1
        ++ [session.finalChunk (cut session.frame (acc ++ reads.flatten)).2] := by
  have hpos : 0 < session.frame := lt_of_lt_of_le Nat.two_pos (two_le_frame session)
  induction reads generalizing acc with
  | nil =>
    rw [List.flatten_nil, List.append_nil, cut_of_lt hacc]
    rfl
  | cons read reads ih =>
    have hne := hreads read List.mem_cons_self
    rw [SessionMeta.runCapture]
    · simp only
      rw [ih (fun r hr => hreads r (List.mem_cons_of_mem _ hr)) (length_rest_lt hpos _)]
      -- The chunks cut so far stand in front of all that is still to come.
      have hcut := cut_flatten_append hpos (fun p hp => length_of_mem_cut (l := acc ++ read) hp)
        ((cut session.frame (acc ++ read)).2 ++ reads.flatten)
      rw [← List.append_assoc, cut_flatten, List.append_assoc, ← List.flatten_cons] at hcut
      rw [hcut, dataChunks, dataChunks, List.map_append, List.append_assoc]
    · exact hne

/-! ## Listen streams -/

namespace ListenStream

variable {s s' : ListenStream V} {chunk : AudioStreamChunk}

/-- The stream with the sound of a chunk behind its own. -/
def taken (detector : Vad V) (s : ListenStream V) (chunk : AudioStreamChunk) : ListenStream V :=
  { s with
    pcm := s.pcm ++ mono chunk.channels chunk.data
    vad := (detector.feed s.vad (mono chunk.channels chunk.data) s.rate_hz).1 }

/-- A chunk is taken exactly if its rate is that of the stream and it has whole samples. -/
theorem receive_ok_iff (hc : 0 < chunk.channels) (hlt : chunk.channels < 2 ^ 16) :
    (∃ vad, s.receive detector chunk = .ok (s', vad)) ↔
      chunk.sample_rate = s.rate_hz ∧ 2 ∣ chunk.data.length ∧ s' = s.taken detector chunk := by
  have hone : max chunk.channels 1 = chunk.channels := max_eq_left hc
  rw [receive, push, hone, Nat.mod_eq_of_lt hlt, hone]
  split_ifs with hrate hodd
  · simp [hrate]
  · simp [show ¬ 2 ∣ chunk.data.length by omega]
  · simp only [Except.ok.injEq, Prod.mk.injEq, exists_and_left, exists_eq', and_true]
    constructor
    · rintro rfl
      exact ⟨not_not.mp hrate, by omega, rfl⟩
    · rintro ⟨-, -, rfl⟩
      rfl

/-- A stream gets some chunks one after another. -/
def receiveAll (detector : Vad V) (s : ListenStream V) (chunks : List AudioStreamChunk) :
    Except String (ListenStream V) :=
  chunks.foldlM (fun s chunk => (s.receive detector chunk).map Prod.fst) s

theorem receiveAll_nil (s : ListenStream V) : s.receiveAll detector [] = .ok s := rfl

theorem receiveAll_cons {chunks : List AudioStreamChunk} :
    s.receiveAll detector (chunk :: chunks) = .ok s' ↔
      ∃ s₁ vad, s.receive detector chunk = .ok (s₁, vad) ∧ s₁.receiveAll detector chunks = .ok s' := by
  rw [receiveAll, List.foldlM_cons]
  cases s.receive detector chunk with
  | error e => simp [Except.map, bind, Except.bind]
  | ok r =>
    obtain ⟨s₁, vad⟩ := r
    constructor
    · exact fun h => ⟨s₁, vad, rfl, h⟩
    · rintro ⟨s₂, vad', heq, h⟩
      obtain ⟨rfl, -⟩ := Prod.mk.inj (Except.ok.inj heq)
      exact h

/-- The chunks of one format are all taken exactly if they have whole samples, and each of them is
    mixed down by itself. -/
theorem receiveAll_pcm {chunks : List AudioStreamChunk} (hc : 0 < channels) (hlt : channels < 2 ^ 16)
    (hformat : ∀ chunk ∈ chunks, chunk.sample_rate = s.rate_hz ∧ chunk.channels = channels)
    (pcm : List Int16) :
    (∃ s', s.receiveAll detector chunks = .ok s' ∧ s'.pcm = pcm) ↔
      (∀ chunk ∈ chunks, 2 ∣ chunk.data.length) ∧
        pcm = s.pcm ++ (chunks.map fun chunk => mono channels chunk.data).flatten := by
  induction chunks generalizing s with
  | nil =>
    simp only [receiveAll_nil, Except.ok.injEq, exists_eq_left', List.not_mem_nil, false_implies,
      implies_true, true_and, List.map_nil, List.flatten_nil, List.append_nil]
    exact eq_comm
  | cons chunk chunks ih =>
    obtain ⟨hrate, hchannels⟩ := hformat chunk List.mem_cons_self
    have hrest := fun c hc' => hformat c (List.mem_cons_of_mem chunk hc')
    have hcpos : 0 < chunk.channels := hchannels ▸ hc
    have hclt : chunk.channels < 2 ^ 16 := hchannels ▸ hlt
    have hmono : (s.taken detector chunk).pcm = s.pcm ++ mono channels chunk.data := by
      rw [taken, hchannels]
    rw [List.map_cons, List.flatten_cons, ← List.append_assoc, ← hmono]
    constructor
    · rintro ⟨s', hs', hpcm⟩
      obtain ⟨s₁, vad, hs₁, hs'⟩ := receiveAll_cons.mp hs'
      obtain ⟨-, heven, rfl⟩ := (receive_ok_iff hcpos hclt).mp ⟨vad, hs₁⟩
      obtain ⟨hall, heq⟩ := (ih (s := s.taken detector chunk) hrest).mp ⟨s', hs', hpcm⟩
      refine ⟨fun c hc' => ?_, heq⟩
      rcases List.mem_cons.mp hc' with rfl | hc'
      · exact heven
      · exact hall c hc'
    · rintro ⟨hall, heq⟩
      have heven := hall chunk List.mem_cons_self
      obtain ⟨vad, hs₁⟩ := (receive_ok_iff hcpos hclt).mpr ⟨hrate, heven, rfl⟩
      have hall' := fun c hc' => hall c (List.mem_cons_of_mem chunk hc')
      obtain ⟨s', hs', hpcm⟩ := (ih (s := s.taken detector chunk) hrest).mpr ⟨hall', heq⟩
      exact ⟨s', receiveAll_cons.mpr ⟨_, vad, hs₁, hs'⟩, hpcm⟩

end ListenStream

/-! ## The whole sound -/

variable {V : Type} {detector : Vad V} {stream_id rate_hz : Nat} {language : Option String}

/-- A new listen stream takes every chunk of a capture and ends with its whole sound. -/
def Agrees (detector : Vad V) (session : SessionMeta) (reads : List (List UInt8))
    (s : ListenStream V) : Prop :=
  ∃ s', s.receiveAll detector (session.runCapture [] reads) = .ok s' ∧
    s'.pcm = downmix (samples reads.flatten) session.channels

/-- The chunks of a capture are taken and mixed down as a whole, in terms of its pieces. -/
theorem agrees_iff_pieces (hc : 0 < session.channels) (hlt : session.channels < 2 ^ 16)
    (hreads : ∀ read ∈ reads, read ≠ []) {s : ListenStream V} (hrate : s.rate_hz = session.rate_hz)
    (hempty : s.pcm = []) :
    Agrees detector session reads s ↔
      (∀ p ∈ (cut session.frame reads.flatten).1, 2 ∣ p.length) ∧
        mono session.channels reads.flatten
          = ((cut session.frame reads.flatten).1.map (mono session.channels)).flatten
            ++ mono session.channels (cut session.frame reads.flatten).2 := by
  have hframe : ([] : List UInt8).length < session.frame :=
    lt_of_lt_of_le Nat.two_pos (two_le_frame session)
  have hfinal : 2 ∣ (whole (cut session.frame reads.flatten).2).length := by
    rw [length_whole]
    omega
  rw [Agrees, runCapture_eq hreads hframe, List.nil_append]
  rw [ListenStream.receiveAll_pcm hc hlt]
  · rw [hempty, List.nil_append, List.map_append, List.flatten_append, dataChunks, List.map_map]
    simp only [List.map_cons, List.map_nil, List.flatten_cons, List.flatten_nil, List.append_nil,
      SessionMeta.finalChunk, buildChunk]
    rw [← whole, mono_whole]
    refine and_congr_left fun _ => ?_
    constructor
    · intro hall p hp
      exact hall _ (List.mem_append_left _ (List.mem_map_of_mem hp))
    · intro hall chunk hchunk
      rcases List.mem_append.mp hchunk with hchunk | hchunk
      · obtain ⟨p, hp, rfl⟩ := List.mem_map.mp hchunk
        exact hall p hp
      · rw [List.mem_singleton.mp hchunk]
        exact hfinal
  · intro chunk hchunk
    rcases List.mem_append.mp hchunk with hchunk | hchunk
    · obtain ⟨p, hp, rfl⟩ := List.mem_map.mp hchunk
      exact ⟨hrate.symm, rfl⟩
    · rw [List.mem_singleton.mp hchunk]
      exact ⟨hrate.symm, rfl⟩

/-- Frames are lost where a piece ends inside of one. -/
theorem frames_lost {q m c k r : Nat} (hq : 0 < q) (hm : ¬ c ∣ m)
    (hk : q * m + r = c * k) : q * (m / c) + r / c < k := by
  have hdiv := Nat.div_add_mod m c
  have hmod : 0 < m % c := Nat.pos_of_ne_zero fun h => hm (Nat.dvd_of_mod_eq_zero h)
  have hlost : c * (m / c) < m := by omega
  have hpieces : q * (c * (m / c)) < q * m := Nat.mul_lt_mul_of_pos_left hlost hq
  have hrest : c * (r / c) ≤ r := Nat.mul_div_le r c
  refine Nat.lt_of_mul_lt_mul_left (a := c) ?_
  calc c * (q * (m / c) + r / c) = q * (c * (m / c)) + c * (r / c) := by ring
    _ < q * m + r := by omega
    _ = c * k := hk

/-- A chunk that is no whole number of frames long is refused or loses a frame. -/
theorem not_agrees (hc : 0 < session.channels) (hlt : session.channels < 2 ^ 16)
    (hreads : ∀ read ∈ reads, read ≠ []) {s : ListenStream V} (hrate : s.rate_hz = session.rate_hz)
    (hempty : s.pcm = []) (hwhole : 2 * session.channels ∣ reads.flatten.length)
    (hframe : ¬ 2 * session.channels ∣ session.frame)
    (hlong : session.frame ≤ reads.flatten.length) : ¬ Agrees detector session reads s := by
  have hpos : 0 < session.frame := lt_of_lt_of_le Nat.two_pos (two_le_frame session)
  rw [agrees_iff_pieces hc hlt hreads hrate hempty]
  rintro ⟨heven, heq⟩
  have hlength := length_eq_cut session.frame reads.flatten
  have hcount : 0 < (chunksExact session.frame reads.flatten).length := by
    rw [length_chunksExact hpos]
    exact Nat.div_pos hlong hpos
  obtain ⟨p, hp⟩ := List.exists_mem_of_length_pos hcount
  obtain ⟨m, hm⟩ : 2 ∣ session.frame := length_of_mem_cut hp ▸ heven p hp
  obtain ⟨k, hk⟩ := hwhole
  have hlost : ¬ session.channels ∣ m := by
    rintro ⟨j, rfl⟩
    exact hframe ⟨j, by rw [hm, Nat.mul_assoc]⟩
  have hpieces : ∀ a ∈ (cut session.frame reads.flatten).1.map (mono session.channels),
      a.length = m / session.channels := by
    intro a ha
    obtain ⟨p, hp, rfl⟩ := List.mem_map.mp ha
    rw [length_mono hc, length_of_mem_cut hp, hm, Nat.mul_div_cancel_left m Nat.two_pos]
  have hlengths := congrArg List.length heq
  rw [List.length_append, length_flatten_of_length hpieces, List.length_map, length_mono hc,
    length_mono hc, Nat.div_div_eq_div_mul, hk, Nat.mul_div_cancel_left k (by omega)] at hlengths
  refine absurd hlengths (Nat.ne_of_gt (frames_lost hcount hlost ?_))
  have hsplit : (chunksExact session.frame reads.flatten).length * (2 * m)
      + (cut session.frame reads.flatten).2.length = 2 * (session.channels * k) := by
    rw [← hm, hlength, hk, Nat.mul_assoc]
  have hdouble : (chunksExact session.frame reads.flatten).length * (2 * m)
      = 2 * ((chunksExact session.frame reads.flatten).length * m) := by ring
  change (chunksExact session.frame reads.flatten).length * m + _ = _
  omega

/-- A capture of whole frames and a new listen stream of its rate and channels agree on the sound
    exactly if a chunk is a whole number of frames long or the sound is shorter than one chunk. -/
theorem mic_and_stt_agree_iff (detector : Vad V) (cfg : RecorderConfig) (req : StartRequest)
    (id recorder_bin : String) (stream_id : Nat) (language : Option String)
    (reads : List (List UInt8)) (hreads : ∀ read ∈ reads, read ≠ [])
    (hwhole : 2 * req.num_channels.val ∣ reads.flatten.length) :
    Agrees detector (req.session cfg id recorder_bin stream_id) reads
        (.new detector stream_id req.sample_rate_hz req.num_channels language) ↔
      2 * req.num_channels.val ∣ chunkBytes req.sample_rate_hz req.num_channels req.chunk_ms ∨
        reads.flatten.length < chunkBytes req.sample_rate_hz req.num_channels req.chunk_ms := by
  obtain ⟨hone, height⟩ := req.num_channels.2
  have hc : 0 < (req.session cfg id recorder_bin stream_id).channels := hone
  have hlt : (req.session cfg id recorder_bin stream_id).channels < 2 ^ 16 := by
    refine lt_of_le_of_lt (b := 8) height (by decide)
  constructor
  · intro hagrees
    by_contra hnot
    obtain ⟨hframe, hlong⟩ := not_or.mp hnot
    exact not_agrees hc hlt hreads rfl rfl hwhole hframe (not_lt.mp hlong) hagrees
  · intro h
    rw [agrees_iff_pieces hc hlt hreads rfl rfl]
    rcases h with hframe | hshort
    · have hpieces : ∀ p ∈ (cut (req.session cfg id recorder_bin stream_id).frame reads.flatten).1,
          2 * (req.session cfg id recorder_bin stream_id).channels ∣ p.length := by
        intro p hp
        rw [length_of_mem_cut hp]
        exact hframe
      refine ⟨fun p hp => dvd_of_mul_right_dvd (hpieces p hp), ?_⟩
      rw [← mono_flatten_append hc hpieces, cut_flatten]
    · rw [cut_of_lt (n := (req.session cfg id recorder_bin stream_id).frame) hshort]
      exact ⟨nofun, rfl⟩

/-- A detector that never hears anything. -/
def deaf : Vad Unit :=
  { new := (), feed := fun _ _ _ => ((), .None) }

theorem channel_range : 1 ≤ 1 ∧ 1 ≤ 8 := by decide

def request (rate : Within 8000 192000) (chunk_ms : Within 10 1000) : StartRequest :=
  { target := "stt", format := SUPPORTED_FORMAT, device := none, sample_rate_hz := rate
    num_channels := ⟨1, channel_range⟩, chunk_ms, stream_id := none }

/-- A chunk and a quarter at 8000 Hz, in two reads. -/
theorem mic_and_stt_agree_sample :
    Agrees deaf ((request ⟨8000, by decide⟩ ⟨10, by decide⟩).session {} "session-1" "parec" 1)
      [List.replicate 30 1, List.replicate 170 2] (.new deaf 1 8000 1 none) :=
  (mic_and_stt_agree_iff deaf {} (request ⟨8000, by decide⟩ ⟨10, by decide⟩) "session-1" "parec" 1 none
    [List.replicate 30 1, List.replicate 170 2] (by decide +kernel) (by decide +kernel)).mpr
    (.inl (by decide +kernel))

/-- At 11025 Hz a chunk of 30 ms has 661 bytes, which is no whole number of samples. -/
theorem odd_chunk_is_refused :
    ¬ ∀ (V : Type) (detector : Vad V) (cfg : RecorderConfig) (req : StartRequest)
      (id recorder_bin : String) (stream_id : Nat) (language : Option String)
      (reads : List (List UInt8)), (∀ read ∈ reads, read ≠ []) →
      2 * req.num_channels.val ∣ reads.flatten.length →
      Agrees detector (req.session cfg id recorder_bin stream_id) reads
        (.new detector stream_id req.sample_rate_hz req.num_channels language) := by
  intro hall
  obtain ⟨data, hdata⟩ : ∃ data : List UInt8, data.length = 662 :=
    ⟨List.replicate 662 0, List.length_replicate⟩
  have hread : ∀ read ∈ [data], read ≠ [] := by
    intro read hread
    rw [List.mem_singleton.mp hread]
    exact List.ne_nil_of_length_pos (by omega)
  have hlength : [data].flatten.length = 662 := by
    rw [List.flatten_singleton, hdata]
  have hwhole : 2 * 1 ∣ [data].flatten.length := ⟨331, hlength⟩
  have hframe : ¬ 2 * 1 ∣ chunkBytes 11025 1 30 := by decide
  have hlong : chunkBytes 11025 1 30 ≤ [data].flatten.length := by
    rw [hlength]
    decide
  have hagrees := hall Unit deaf {} (request ⟨11025, by decide⟩ ⟨30, by decide⟩) "session-1" "parec" 1
    none [data] hread hwhole
  exact absurd hagrees (not_agrees Nat.one_pos (by decide) hread rfl rfl hwhole hframe hlong)

end Audio
