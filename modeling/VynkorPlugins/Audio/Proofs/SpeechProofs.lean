import VynkorPlugins.Audio.Speech

/-!
# Proofs: the speech loop loses no frame

As long as no request and no acceptable chunk arrives while a call waits for its reply, each request is
answered once and each stream holds the sound of all of its chunks.
-/

namespace Audio.Speech

open Async Transition

variable {V : Type} {svc : Service V} {s s' : Loop V} {f : Frame} {action_id : String}
  {chunk : AudioStreamChunk}

/-- The sound of some chunks, each mixed down by itself. -/
def pcmOf (chunks : List AudioStreamChunk) : List Int16 :=
  (chunks.map fun chunk =>
    downmix (samples chunk.data) (max (max chunk.channels 1 % 2 ^ 16) 1)).flatten

theorem pcmOf_append (chunks : List AudioStreamChunk) (chunk : AudioStreamChunk) :
    pcmOf (chunks ++ [chunk])
      = pcmOf chunks ++ downmix (samples chunk.data) (max (max chunk.channels 1 % 2 ^ 16) 1) := by
  rw [pcmOf, List.map_append, List.flatten_append, List.map_singleton, List.flatten_singleton]
  rfl

/-- A stream that takes a chunk appends its sound. -/
theorem receive_pcm {detector : Vad V} {stream stream' : ListenStream V} {outcome : ChunkVad}
    (h : stream.receive detector chunk = .ok (stream', outcome)) :
    stream'.pcm = stream.pcm ++ downmix (samples chunk.data) (max (max chunk.channels 1 % 2 ^ 16) 1) := by
  unfold ListenStream.receive ListenStream.push at h
  split_ifs at h
  obtain ⟨rfl, -⟩ := Prod.mk.inj (Except.ok.inj h)
  rfl

theorem push_cases {detector : Vad V} {streams streams' : Streams V} {outcome : ChunkVad}
    (h : streams.push detector chunk = .ok (streams', outcome)) :
    ∃ stream stream', streams[chunk.stream_id]? = some stream ∧
      stream'.pcm = stream.pcm ++ downmix (samples chunk.data) (max (max chunk.channels 1 % 2 ^ 16) 1) ∧
      streams' = streams.insert chunk.stream_id stream' := by
  unfold Streams.push at h
  split at h
  · cases h
  · rename_i stream hstream
    cases hr : stream.receive detector chunk with
    | error e =>
      rw [hr] at h
      cases h
    | ok r =>
      obtain ⟨stream', outcome'⟩ := r
      rw [hr] at h
      obtain ⟨rfl, -⟩ := Prod.mk.inj (Except.ok.inj h)
      exact ⟨stream, stream', hstream, receive_pcm hr, rfl⟩

/-! ## Requests and their answers -/

namespace Loop

/-- The answers that have been sent. -/
def responses (s : Loop V) : List ActionResponse :=
  s.sent.filterMap fun out => match out with
    | .response r => some r
    | _ => none

/-- The action in progress. -/
def inProgress (s : Loop V) : List String :=
  match s.busy with
  | .serving action_id _ _ => [action_id]
  | _ => []

/-- The requests that have been answered, and the one in progress. -/
def taken (s : Loop V) : List String :=
  s.responses.map ActionResponse.action_id ++ s.inProgress

theorem responses_send (s : Loop V) (out : Sent) :
    (s.send out).responses = s.responses ++ match out with
      | .response r => [r]
      | _ => [] := by
  unfold responses send
  rw [List.filterMap_append]
  cases out <;> rfl

end Loop

/-- What the loop keeps of streams and requests is unchanged. -/
structure Same (s s' : Loop V) : Prop where
  streams : s'.streams = s.streams
  heard : s'.heard = s.heard
  stops : s'.stops = s.stops
  requests : s'.requests = s.requests

theorem publishing_same (s : Loop V) (p : Program Unit) : Same s (s.publishing p) := by
  cases p <;> exact ⟨rfl, rfl, rfl, rfl⟩

theorem publishing_taken (s : Loop V) (p : Program Unit) :
    (s.publishing p).taken = s.responses.map ActionResponse.action_id := by
  cases p with
  | done a => exact List.append_nil _
  | call w k =>
    rw [Loop.taken, Loop.publishing, Loop.responses_send]
    simp only [List.append_nil]
    exact List.append_nil _

theorem serving_same (s : Loop V) (action_id : String) (p : Program (Except String ByteArray)) :
    Same s (s.serving action_id p) := by
  match p with
  | .done (.ok _) | .done (.error _) | .call _ _ => exact ⟨rfl, rfl, rfl, rfl⟩

theorem serving_taken (s : Loop V) (action_id : String) (p : Program (Except String ByteArray)) :
    (s.serving action_id p).taken = s.responses.map ActionResponse.action_id ++ [action_id] := by
  match p with
  | .done (.ok _) | .done (.error _) =>
    rw [Loop.taken, Loop.serving, Loop.responses_send, List.map_append]
    exact List.append_nil _
  | .call w k =>
    rw [Loop.taken, Loop.serving, Loop.responses_send]
    simp only [List.append_nil]
    rfl

/-! ## The invariant -/

/-- Each stream holds the sound of the chunks that have arrived for it. -/
structure Kept (s : Loop V) : Prop where
  heard : ∀ (id : Nat) stream, s.streams[id]? = some stream → stream.pcm = pcmOf (s.heard id)
  stops : ∀ stop ∈ s.stops, stop.pcm = pcmOf stop.heard

theorem kept_initial : Kept ({} : Loop V) where
  heard id stream h := by simp at h
  stops stop h := nomatch h

theorem Kept.same (hk : Kept s) (h : Same s s') : Kept s' where
  heard id stream hstream := by
    rw [h.streams] at hstream
    rw [h.heard]
    exact hk.heard id stream hstream
  stops stop hstop := hk.stops stop (h.stops ▸ hstop)

/-- What a handler makes of the loop before it waits: the action is taken. -/
structure Takes (action_id : String) (s s' : Loop V) : Prop where
  kept : Kept s → Kept s'
  requests : s'.requests = s.requests
  taken : s'.taken = s.responses.map ActionResponse.action_id ++ [action_id]

theorem takes_serving (s : Loop V) (action_id : String) (p : Program (Except String ByteArray)) :
    Takes action_id s (s.serving action_id p) where
  kept hk := hk.same (serving_same s action_id p)
  requests := (serving_same s action_id p).requests
  taken := serving_taken s action_id p

theorem takes_listenStart (s : Loop V) (action_id : String) (json : ByteArray) :
    Takes action_id s (s.listenStart svc action_id json) := by
  unfold Loop.listenStart
  split
  · exact takes_serving ..
  · rename_i p _
    split
    · exact takes_serving ..
    · rename_i streams hstart
      have hstarted : streams = s.streams.insert p.stream_id
          (.new svc.detector p.stream_id p.sample_rate_hz p.num_channels p.language) := by
        unfold Streams.start at hstart
        split_ifs at hstart
        exact (Except.ok.inj hstart).symm
      have htakes := takes_serving
        { s with streams, heard := Function.update s.heard p.stream_id [] } action_id
        (.done (.ok (Json.obj [("status", .str "listening"), ("stream_id", .int p.stream_id)]).toVec))
      refine ⟨fun hk => htakes.kept ⟨fun id stream h => ?_, hk.stops⟩, htakes.requests, htakes.taken⟩
      change stream.pcm = pcmOf (Function.update s.heard p.stream_id [] id)
      rw [hstarted, Table.getElem?_insert_ite] at h
      rw [Function.update_apply]
      split_ifs at h with hid
      · obtain rfl := Option.some.inj h
        rw [if_pos hid.symm]
        rfl
      · rw [if_neg (Ne.symm hid)]
        exact hk.heard id stream h

theorem takes_listenStop (s : Loop V) (action_id : String) (json : ByteArray) :
    Takes action_id s (s.listenStop svc action_id json) := by
  unfold Loop.listenStop
  split
  · exact takes_serving ..
  · rename_i stream_id _
    split
    · exact takes_serving ..
    · rename_i stream streams htake
      obtain ⟨hstream, hstreams⟩ : s.streams[stream_id]? = some stream ∧
          streams = s.streams.erase stream_id := by
        unfold Streams.take at htake
        split at htake
        · cases htake
        · rename_i stream' hstream'
          obtain ⟨rfl, rfl⟩ := Prod.mk.inj (Except.ok.inj htake)
          exact ⟨hstream', rfl⟩
      have hkept (hk : Kept s) : Kept { s with
          streams
          stops := s.stops ++ [{ stream_id, pcm := stream.pcm, heard := s.heard stream_id }] } := by
        refine ⟨fun id stream' h => ?_, fun stop hstop => ?_⟩
        · rw [hstreams, Table.getElem?_erase_ite] at h
          split_ifs at h
          exact hk.heard id stream' h
        · rcases List.mem_append.mp hstop with hstop | hstop
          · exact hk.stops stop hstop
          · rw [List.mem_singleton.mp hstop]
            exact hk.heard stream_id stream hstream
      have htakes (p : Program (Except String ByteArray)) : Takes action_id s
          (Loop.serving { s with
            streams
            stops := s.stops ++ [{ stream_id, pcm := stream.pcm, heard := s.heard stream_id }] }
            action_id p) := by
        have hserving := takes_serving { s with
            streams
            stops := s.stops ++ [{ stream_id, pcm := stream.pcm, heard := s.heard stream_id }] }
            action_id p
        exact ⟨fun hk => hserving.kept (hkept hk), hserving.requests, hserving.taken⟩
      dsimp only
      split_ifs
      · exact htakes _
      · exact htakes _

theorem takes_handleAction (hreading : s.isReading = true) (req : ActionRequest) :
    Takes req.action_id s (s.handleAction svc req) := by
  unfold Loop.handleAction
  split
  · exact takes_listenStart ..
  · exact takes_listenStop ..
  · split
    · exact takes_serving ..
    · refine ⟨fun hk => hk.same ⟨rfl, rfl, rfl, rfl⟩, rfl, ?_⟩
      rw [Loop.taken, Loop.responses_send, List.map_append]
      have hidle : s.inProgress = [] := by
        unfold Loop.isReading at hreading
        unfold Loop.inProgress
        split at hreading
        · rename_i hbusy
          rw [hbusy]
        · cases hreading
      change _ ++ s.inProgress = _
      rw [hidle, List.append_nil]
      rfl

/-! ## Steps -/

structure Inv (s : Loop V) : Prop extends Kept s where
  answered : s.requests.map ActionRequest.action_id = s.taken

theorem inv_initial : Inv ({} : Loop V) where
  toKept := kept_initial
  answered := rfl

theorem Inv.publishing (hI : Inv s) (hreading : s.inProgress = []) (p : Program Unit) :
    Inv (s.publishing p) where
  toKept := hI.toKept.same (publishing_same s p)
  answered := by
    rw [(publishing_same s p).requests, publishing_taken, hI.answered, Loop.taken, hreading,
      List.append_nil]

/-- A chunk that is read goes into its stream. -/
theorem Kept.takeChunk (hk : Kept s) {streams : Streams V} {outcome : ChunkVad}
    (hpush : s.streams.push svc.detector chunk = .ok (streams, outcome)) :
    Kept { s with
      streams
      heard := Function.update s.heard chunk.stream_id (s.heard chunk.stream_id ++ [chunk]) } := by
  obtain ⟨stream, stream', hstream, hpcm, rfl⟩ := push_cases hpush
  refine ⟨fun id other h => ?_, hk.stops⟩
  change other.pcm = pcmOf (Function.update s.heard chunk.stream_id _ id)
  change (s.streams.insert chunk.stream_id stream')[id]? = some other at h
  rw [Table.getElem?_insert_ite] at h
  rw [Function.update_apply]
  split_ifs at h with hid
  · obtain rfl := Option.some.inj h
    rw [if_pos hid.symm, pcmOf_append, hpcm, hk.heard _ stream hstream]
  · rw [if_neg (Ne.symm hid)]
    exact hk.heard id other h

theorem inProgress_of_isReading (h : s.isReading = true) : s.inProgress = [] := by
  unfold Loop.isReading at h
  unfold Loop.inProgress
  split at h
  · rename_i hbusy
    rw [hbusy]
  · cases h

theorem Inv.readChunk (hI : Inv s) (hreading : s.isReading = true) (codec : Codec)
    (chunk : AudioStreamChunk) :
    Inv ((s.note svc (.chunk codec chunk)).read svc (.chunk codec chunk)) := by
  have hidle := inProgress_of_isReading hreading
  by_cases hcodec : codec = .pcmS16le
  · cases hpush : s.streams.push svc.detector chunk with
    | error e =>
      have hinvalid : s.valid svc codec chunk = false := by
        simp [Loop.valid, hpush, Except.isOk, Except.toBool]
      rw [Loop.note, hinvalid, Loop.read, if_pos hcodec]
      simp only [Bool.false_eq_true, if_false, hpush]
      exact hI
    | ok r =>
      obtain ⟨streams, outcome⟩ := r
      have hvalid : s.valid svc codec chunk = true := by
        simp [Loop.valid, hcodec, hpush, Except.isOk, Except.toBool]
      rw [Loop.note, if_pos hvalid, Loop.read, if_pos hcodec]
      simp only [hpush]
      have hkept := hI.toKept.takeChunk hpush
      exact Inv.publishing ⟨hkept, hI.answered⟩ hidle _
  · have hinvalid : s.valid svc codec chunk = false := by
      simp [Loop.valid, hcodec]
    rw [Loop.note, hinvalid, Loop.read, if_neg hcodec]
    exact hI

theorem Inv.send (hI : Inv s) (out : Sent) (hout : ∀ r, out ≠ .response r) : Inv (s.send out) where
  toKept := hI.toKept.same ⟨rfl, rfl, rfl, rfl⟩
  answered := by
    rw [Loop.taken, Loop.responses_send]
    cases out with
    | response r => exact absurd rfl (hout r)
    | pong | eventAck | call =>
      rw [List.append_nil]
      exact hI.answered

/-- A frame that the loop reads. -/
theorem Inv.read (hI : Inv s) (hreading : s.isReading = true) (f : Frame) :
    Inv ((s.note svc f).read svc f) := by
  have hidle := inProgress_of_isReading hreading
  cases f with
  | ping timestamp => exact hI.send _ nofun
  | shutdown => exact ⟨⟨hI.heard, hI.stops⟩, hI.answered⟩
  | event event_id => exact hI.send _ nofun
  | chunk codec chunk => exact hI.readChunk hreading codec chunk
  | request req =>
    have hnoted : Loop.isReading { s with requests := s.requests ++ [req] } = true := hreading
    have htakes : Takes req.action_id { s with requests := s.requests ++ [req] }
        (Loop.handleAction svc { s with requests := s.requests ++ [req] } req) :=
      takes_handleAction hnoted req
    refine ⟨htakes.kept ⟨hI.heard, hI.stops⟩, ?_⟩
    change (Loop.handleAction svc { s with requests := s.requests ++ [req] } req).requests.map _
      = (Loop.handleAction svc { s with requests := s.requests ++ [req] } req).taken
    rw [htakes.requests, htakes.taken, List.map_append, hI.answered, Loop.taken, hidle, List.append_nil]
    rfl
  | ack call | response call reply | other => exact hI

/-- Without a request or an acceptable chunk there is nothing to note. -/
theorem note_eq_self (hreading : s.isReading = false) (horderly : s.orderly svc (.frame f) = true) :
    s.note svc f = s := by
  cases f with
  | request req =>
    rw [Loop.orderly, hreading] at horderly
    cases horderly
  | chunk codec chunk =>
    rw [Loop.orderly, hreading, Bool.false_or, Bool.not_eq_true'] at horderly
    rw [Loop.note, horderly]
    rfl
  | _ => rfl

theorem Inv.serving (hI : Inv s) (hserving : s.inProgress = [action_id])
    (p : Program (Except String ByteArray)) : Inv (s.serving action_id p) := by
  have htakes := takes_serving s action_id p
  refine ⟨htakes.kept hI.toKept, ?_⟩
  rw [htakes.requests, htakes.taken, hI.answered, Loop.taken, hserving]

/-- A frame that arrives while a call waits. -/
theorem Inv.await (hI : Inv s) (f : Frame) : Inv (s.await f) := by
  unfold Loop.await
  split
  · exact hI
  · rename_i w k hbusy
    split
    · refine hI.publishing ?_ _
      rw [Loop.inProgress, hbusy]
    · exact hI
  · rename_i action_id w k hbusy
    split
    · refine hI.serving ?_ _
      rw [Loop.inProgress, hbusy]
    · exact hI

theorem Inv.step {l : Label} (hI : Inv s) (hs : s.step svc l = some s')
    (horderly : s.orderly svc l = true) : Inv s' := by
  unfold Loop.step at hs
  by_cases hdown : s.down = true
  · rw [if_pos hdown] at hs
    cases hs
  rw [if_neg hdown] at hs
  cases l with
  | frame f =>
    obtain rfl := Option.some.inj hs
    cases hreading : s.isReading with
    | true => exact hI.read hreading f
    | false =>
      rw [note_eq_self hreading horderly]
      exact hI.await f
  | elapsed =>
    dsimp only at hs
    split at hs
    · cases hs
    · rename_i w k hbusy
      obtain rfl := Option.some.inj hs
      refine hI.publishing ?_ _
      rw [Loop.inProgress, hbusy]
    · rename_i action_id w k hbusy
      obtain rfl := Option.some.inj hs
      refine hI.serving ?_ _
      rw [Loop.inProgress, hbusy]

/-! ## Runs -/

/-- The runs in which no request and no acceptable chunk arrives while a call waits. -/
abbrev Orderly (svc : Service V) : List Label → Loop V → Prop :=
  Run (Where (fun s l => s.orderly svc l = true) fun s l s' => s.step svc l = some s') {}

/-- As long as no request and no acceptable chunk arrives while a call waits for its reply, the requests
    that have arrived are those that have been answered, in their order, and the one in progress; and each
    stop hands the sound of all chunks to the recognizer that the stream accepts and that have arrived since
    its start. -/
theorem speech_loses_no_frame {trace : List Label} (svc : Service V) (hr : Orderly svc trace s) :
    s.requests.map ActionRequest.action_id
        = s.responses.map ActionResponse.action_id ++ s.inProgress ∧
      ∀ stop ∈ s.stops, stop.pcm = pcmOf stop.heard := by
  have hI : Inv s := hr.invariant_state inv_initial fun _ _ _ hI hs => hI.step hs.1 hs.2
  exact ⟨hI.answered, hI.stops⟩

/-- A detector that hears speech in every chunk. -/
def talking : Service Unit where
  serde := .compact
  detector := { new := (), feed := fun v _ _ => (v, .SpeechStarted) }
  transcribe_pcm _ _ _ := .ok { text := "hi", language := "en", duration_seconds := .int 1, model := "m" }
  other _ := none

def startRequest : ActionRequest where
  action_id := "a"
  action := "stt_listen_start"
  params_json := (Json.obj [("sample_rate_hz", .int 8000), ("stream_id", .int 1)]).toVec

def stopRequest : ActionRequest where
  action_id := "b"
  action := "stt_listen_stop"
  params_json := (Json.obj [("stream_id", .int 1)]).toVec

def twoSamples : AudioStreamChunk where
  stream_id := 1
  sample_rate := 8000
  channels := 1
  data := [1, 0, 2, 0]
  end_of_stream := false

/-- A ping is discarded while the event of the chunk is published; the stop is answered after its own. -/
theorem speech_loses_no_frame_sample :
    ∃ s : Loop Unit, (s.requests.map ActionRequest.action_id
        = s.responses.map ActionResponse.action_id ++ s.inProgress ∧
      ∀ stop ∈ s.stops, stop.pcm = pcmOf stop.heard) ∧
      s.stops.map Stop.pcm = [[1, 2]] ∧ s.responses.map ActionResponse.action_id = ["a", "b"] := by
  have hsome : ((runWhere (fun s l => Loop.orderly talking s l = true) (Loop.step talking) {}
      [.frame (.request startRequest), .frame (.chunk .pcmS16le twoSamples), .frame (.ping 5),
        .frame (.ack 1), .frame (.request stopRequest), .elapsed]).any fun s =>
          s.stops.map Stop.pcm = [[1, 2]] ∧
            s.responses.map ActionResponse.action_id = ["a", "b"]) = true := by
    decide +kernel
  obtain ⟨s, hs, hsent⟩ := (Option.any_eq_true _ _).mp hsome
  exact ⟨s, speech_loses_no_frame talking (run_of_runWhere .start hs), of_decide_eq_true hsent⟩

/-- A chunk and a request arrive while the event of the first chunk is published: the request is never
    answered and the sound is missing from the stop. -/
theorem frames_lost_while_publishing :
    ¬ ∀ (svc : Service Unit) (trace : List Label) (s : Loop Unit),
      Run (fun s l s' => s.step svc l = some s') {} trace s →
        s.requests.map ActionRequest.action_id
            = s.responses.map ActionResponse.action_id ++ s.inProgress ∧
          ∀ stop ∈ s.stops, stop.pcm = pcmOf stop.heard := by
  intro hall
  have hsome : ((runWhere (fun _ _ => True) (Loop.step talking) {}
      [.frame (.request startRequest), .frame (.chunk .pcmS16le twoSamples),
        .frame (.chunk .pcmS16le twoSamples), .frame (.request { stopRequest with action_id := "c" }),
        .frame (.ack 1), .frame (.request stopRequest), .elapsed]).any fun s =>
          s.stops.map Stop.pcm ≠ s.stops.map (fun stop => pcmOf stop.heard) ∧
            s.requests.map ActionRequest.action_id
              ≠ s.responses.map ActionResponse.action_id ++ s.inProgress) = true := by
    decide +kernel
  obtain ⟨s, hs, hlost⟩ := (Option.any_eq_true _ _).mp hsome
  obtain ⟨hpcm, -⟩ := of_decide_eq_true hlost
  have hrun := (run_of_runWhere .start hs).mono fun _ _ _ hl => hl.1
  obtain ⟨-, hstops⟩ := hall talking _ s hrun
  exact hpcm (List.map_congr_left hstops)

end Audio.Speech
