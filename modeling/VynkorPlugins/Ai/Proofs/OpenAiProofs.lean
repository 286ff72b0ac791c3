import VynkorPlugins.Ai.Transcript
import Mathlib.Tactic.SplitIfs

/-!
# Chat completions that are streamed

What the parser of chat completion chunks makes of a transcript.
-/

namespace Ai

open Streaming

namespace OpenAiCompat

variable {serde : Serde} {s : OpenAiStream} {tools : List ToolSlot} {f : Fragment} {c : Chunk}

/-! ## One chunk -/

/-- A slot with one more piece of its tool call. -/
def addPiece (slot : ToolSlot) (f : Fragment) : ToolSlot where
  id := f.id.getD slot.id
  name := slot.name ++ f.name
  arguments := slot.arguments ++ f.arguments

/-- The slots after a piece: as many as its index asks for. -/
def put (tools : List ToolSlot) (f : Fragment) : List ToolSlot :=
  (tools ++ List.replicate (f.index + 1 - tools.length) ({} : ToolSlot)).modify f.index (addPiece · f)

/-- What the parser does with a chunk. -/
def handle (s : OpenAiStream) (c : Chunk) : OpenAiStream × List StreamDelta :=
  let s := { s with started := true, usage := c.usage.getD s.usage }
  match c.choice with
  | none => (s, [])
  | some i =>
    ({ s with
        stop_reason := i.finish_reason.getD s.stop_reason
        content := s.content ++ i.text
        tools := i.fragments.foldl put s.tools },
      if i.text = "" then [] else [.text i.text])

theorem addToolCall_eq {v : Json} (h : f.Says v) (hfits : Fits (f.index + 1)) :
    OpenAiStream.addToolCall tools v = .ok (put tools f) := by
  unfold OpenAiStream.addToolCall put addPiece
  simp only [h.index, h.id, h.name, h.arguments, Option.getD_some]
  rw [if_neg fun hpanic => hpanic.2 hfits]

theorem foldlM_addToolCall {fs : List Fragment} {vs : List Json}
    (h : List.Forall₂ Fragment.Says fs vs) (hfits : ∀ f ∈ fs, Fits (f.index + 1)) :
    vs.foldlM OpenAiStream.addToolCall tools = .ok (fs.foldl put tools) := by
  induction h generalizing tools with
  | nil => rfl
  | @cons f v fs vs hf hrest ih =>
    rw [List.foldlM_cons, addToolCall_eq hf (hfits f List.mem_cons_self)]
    exact ih fun f hmem => hfits f (List.mem_cons_of_mem _ hmem)

theorem usageOf_eq {v : Json} (h : c.Says v) : OpenAiStream.usageOf v = c.usage := by
  have husage := h.usage
  unfold OpenAiStream.usageOf
  cases hc : c.usage with
  | none =>
    rw [hc] at husage
    rcases husage with hnone | hnull
    · rw [hnone]
    · rw [hnull]
  | some u =>
    rw [hc] at husage
    obtain ⟨counts, hcounts, hne, hinput, houtput⟩ := husage
    rw [hcounts]
    split
    · next h => cases h
    · next h => exact absurd (Option.some.inj h) hne
    · next u' h' =>
      obtain rfl := Option.some.inj h'
      unfold OpenAiStream.readUsage
      rw [hinput, houtput]

/-- The parser takes a value that says a chunk as the chunk. -/
theorem onChunk_eq {v : Json} (h : c.Says v)
    (hfits : ∀ i ∈ c.choice, ∀ f ∈ i.fragments, Fits (f.index + 1)) :
    s.onChunk v = .ok (handle s c) := by
  unfold OpenAiStream.onChunk handle
  rw [h.error, usageOf_eq h]
  have hchoice := h.choice
  cases hc : c.choice with
  | none =>
    rw [hc] at hchoice
    simp only [hchoice]
  | some i =>
    rw [hc] at hchoice
    obtain ⟨choice, hfirst, hsays⟩ := hchoice
    obtain ⟨delta, hdelta, htext, calls, hcalls, hmember⟩ := hsays.delta
    have hitems : ((delta.get "tool_calls").map OpenAiStream.items |>.getD []) = calls := by
      rcases hmember with harr | ⟨rfl, hnone | hnull⟩
      · rw [harr]
        rfl
      · rw [hnone]
        rfl
      · rw [hnull]
        rfl
    simp only [hfirst, hdelta, Option.getD_some, htext, hsays.finish_reason, hitems]
    rw [foldlM_addToolCall hcalls (hfits i hc)]

/-! ## The slots of the tool calls -/

theorem length_put (tools : List ToolSlot) (f : Fragment) :
    (put tools f).length = max tools.length (f.index + 1) := by
  unfold put
  rw [List.length_modify, List.length_append, List.length_replicate]
  omega

/-- The slot of an index, empty where there is none yet. -/
def slotAt (tools : List ToolSlot) (i : Nat) : ToolSlot := tools[i]?.getD {}

theorem slotAt_append_replicate (tools : List ToolSlot) (n i : Nat) :
    slotAt (tools ++ List.replicate n ({} : ToolSlot)) i = slotAt tools i := by
  unfold slotAt
  rw [List.getElem?_append]
  split_ifs with hlt
  · rfl
  · rw [List.getElem?_eq_none (Nat.le_of_not_lt hlt), List.getElem?_replicate]
    split_ifs <;> rfl

theorem slotAt_put (tools : List ToolSlot) (f : Fragment) (i : Nat) :
    slotAt (put tools f) i = if f.index = i then addPiece (slotAt tools i) f else slotAt tools i := by
  have hslot := slotAt_append_replicate tools (f.index + 1 - tools.length) i
  unfold put
  unfold slotAt at hslot ⊢
  rw [List.getElem?_modify]
  split_ifs with hi
  · subst hi
    have hlt : f.index < (tools ++ List.replicate (f.index + 1 - tools.length)
        ({} : ToolSlot)).length := by
      rw [List.length_append, List.length_replicate]
      omega
    rw [← hslot, List.getElem?_eq_getElem hlt]
    rfl
  · rw [← hslot]
    simp

theorem slotAt_foldl_put (tools : List ToolSlot) (fs : List Fragment) (i : Nat) :
    slotAt (fs.foldl put tools) i =
      (fs.filter fun f => f.index = i).foldl addPiece (slotAt tools i) := by
  induction fs generalizing tools with
  | nil => rfl
  | cons f fs ih =>
    rw [List.foldl_cons, ih, slotAt_put]
    by_cases hi : f.index = i
    · rw [if_pos hi, List.filter_cons_of_pos (by simp [hi]), List.foldl_cons]
    · rw [if_neg hi, List.filter_cons_of_neg (by simp [hi])]

theorem length_foldl_put {n : Nat} (tools : List ToolSlot) (fs : List Fragment)
    (hlen : tools.length ≤ n) (h : ∀ f ∈ fs, f.index < n) : (fs.foldl put tools).length ≤ n := by
  induction fs generalizing tools with
  | nil => exact hlen
  | cons f fs ih =>
    refine ih (put tools f) ?_ fun f hmem => h f (List.mem_cons_of_mem _ hmem)
    have hlt := h f List.mem_cons_self
    rw [length_put]
    omega

theorem foldl_addPiece (slot : ToolSlot) (fs : List Fragment) :
    fs.foldl addPiece slot = {
      id := (fs.filterMap Fragment.id).getLast?.getD slot.id
      name := slot.name ++ String.join (fs.map Fragment.name)
      arguments := slot.arguments ++ String.join (fs.map Fragment.arguments) } := by
  induction fs generalizing slot with
  | nil => simp
  | cons f fs ih =>
    rw [List.foldl_cons, ih]
    unfold addPiece
    cases hid : f.id <;> simp [hid, List.getLast?_cons, String.append_assoc]

/-! ## A whole transcript -/

theorem emitAll_transcript (s : OpenAiStream) (t : Transcript) (hne : t ≠ []) :
    (emitAll handle s t).1 = {
      content := s.content ++ String.join (t.increments.map Increment.text)
      tools := t.fragments.foldl put s.tools
      started := true
      stop_reason := (t.increments.filterMap Increment.finish_reason).getLast?.getD s.stop_reason
      usage := (t.filterMap Chunk.usage).getLast?.getD s.usage } := by
  have hall : ∀ (s : OpenAiStream) (t : Transcript), (emitAll handle s t).1 = {
      content := s.content ++ String.join (t.increments.map Increment.text)
      tools := t.fragments.foldl put s.tools
      started := s.started || !t.isEmpty
      stop_reason := (t.increments.filterMap Increment.finish_reason).getLast?.getD s.stop_reason
      usage := (t.filterMap Chunk.usage).getLast?.getD s.usage } := by
    intro s t
    induction t generalizing s with
    | nil => simp [Transcript.increments, Transcript.fragments]
    | cons c t ih =>
      rw [emitAll_cons, ih]
      obtain ⟨choice, usage⟩ := c
      unfold handle Transcript.fragments Transcript.increments
      cases choice with
      | none =>
        cases usage <;> simp [List.getLast?_cons]
      | some i =>
        obtain ⟨text, finish_reason, fragments⟩ := i
        cases usage <;> cases finish_reason <;> simp [List.getLast?_cons, String.append_assoc]
  rw [hall]
  cases t with
  | nil => exact absurd rfl hne
  | cons c t => simp

/-- In every run, the deltas add up to the content. -/
theorem joined_run (t : Transcript) : joined (emitAll handle {} t).2 = (emitAll handle {} t).1.content := by
  have hstep : ∀ (s : OpenAiStream) out c, joined out = s.content →
      joined (out ++ (handle s c).2) = (handle s c).1.content := by
    intro s out c h
    have happend (out out' : List StreamDelta) : joined (out ++ out') = joined out ++ joined out' := by
      unfold joined
      rw [List.map_append, String.join_append]
    rw [happend, h]
    unfold handle
    cases c.choice with
    | none => simp [joined]
    | some i =>
      dsimp only
      split_ifs with hempty
      · simp [joined, hempty]
      · simp [joined, StreamDelta.str]
  have hstart : joined [] = ({} : OpenAiStream).content := rfl
  have hrun := emitAll_invariant (fun (s : OpenAiStream) out => joined out = s.content) hstep hstart t
  rwa [List.nil_append] at hrun

/-- Slots that hold the tool calls of a message, each with a name. -/
theorem toolCalls_of_slots {calls : List RawToolCall} (hlen : tools.length ≤ calls.length)
    (h : ∀ i tc, calls[i]? = some tc → ∃ f, tc.function = some f ∧ f.name ≠ "" ∧
      slotAt tools i = { id := tc.id, name := f.name, arguments := f.arguments }) :
    (tools.filter fun t => t.name ≠ "").map
        (fun t => ({ id := t.id, name := t.name, arguments_json := t.arguments } : ToolCall)) =
      calls.filterMap RawToolCall.toolCall := by
  induction calls generalizing tools with
  | nil =>
    obtain rfl := List.eq_nil_of_length_eq_zero (Nat.le_zero.mp hlen)
    rfl
  | cons tc calls ih =>
    obtain ⟨f, hfunction, hname, hslot⟩ := h 0 tc rfl
    cases tools with
    | nil =>
      -- an empty slot has no name
      have hempty := congrArg ToolSlot.name hslot
      exact absurd hempty.symm hname
    | cons slot tools =>
      obtain rfl : slot = { id := tc.id, name := f.name, arguments := f.arguments } := hslot
      have hcall : tc.toolCall = some { id := tc.id, name := f.name, arguments_json := f.arguments } := by
        unfold RawToolCall.toolCall
        rw [hfunction]
        rfl
      rw [List.filter_cons_of_pos (by simpa using hname), List.map_cons, List.filterMap_cons_some hcall,
        ih (Nat.le_of_succ_le_succ hlen) fun i tc' htc' => h (i + 1) tc' htc']

theorem feedAll_transcript {t : Transcript} {data : List String} (h : t.SentAs serde data)
    (hfits : ∀ f ∈ t.fragments, Fits (f.index + 1)) :
    feedAll (OpenAiStream.feed serde) {} data = .ok (emitAll handle {} t) := by
  have hdone : ∀ (s : OpenAiStream) (d : String), decide (Rust.trim d ≠ "[DONE]") = false →
      s.feed serde d = .ok (s, []) := by
    intro s d hd
    have heq : Rust.trim d = "[DONE]" := by simpa using hd
    exact if_pos heq
  rw [← feedAll_filter _ hdone]
  refine feedAll_eq ?_ _
  unfold Transcript.SentAs at h
  generalize hkept : (data.filter fun d => Rust.trim d ≠ "[DONE]") = kept at h ⊢
  have hall : ∀ d ∈ kept, Rust.trim d ≠ "[DONE]" := by
    intro d hd
    rw [← hkept] at hd
    simpa using (List.mem_filter.mp hd).2
  clear hkept
  induction h with
  | nil => exact .nil
  | @cons c d t kept hcd hrest ih =>
    refine .cons ?_ (ih (fun f hf => hfits f ?_) fun d hd => hall d (List.mem_cons_of_mem _ hd))
    · obtain ⟨v, hread, hsays⟩ := hcd
      intro s
      unfold OpenAiStream.feed
      rw [if_neg (hall d List.mem_cons_self), hread]
      refine onChunk_eq hsays fun i hi f hf => hfits f ?_
      obtain hi : c.choice = some i := hi
      unfold Transcript.fragments Transcript.increments
      rw [List.filterMap_cons_some hi, List.flatMap_cons]
      exact List.mem_append_left _ hf
    · unfold Transcript.fragments Transcript.increments at hf ⊢
      cases hi : c.choice with
      | none => rwa [List.filterMap_cons_none hi]
      | some i =>
        rw [List.filterMap_cons_some hi, List.flatMap_cons]
        exact List.mem_append_right _ hf

/-- A streamed completion gives what the buffered one gives. -/
theorem streams {t : Transcript} {data : List String} {body : ByteArray} {r : ChatResult}
    {fields : List (Option Json)} {resp : Response} {choice : Choice} (hsent : t.SentAs serde data)
    (hfields : serde.readStruct responseFields body = .ok fields)
    (hresp : readResponse fields = some resp) (hencodes : t.Encodes resp choice)
    (hr : parseResponse serde body = .ok r) :
    ∃ s deltas, feedAll (OpenAiStream.feed serde) {} data = .ok (s, deltas) ∧
      joined deltas = r.content ∧ s.finish = .ok r := by
  obtain ⟨choices, usage⟩ := resp
  cases choices with
  | nil => cases hencodes.first
  | cons first rest =>
    obtain rfl : first = choice := Option.some.inj hencodes.first
    unfold parseResponse at hr
    rw [hfields] at hr
    simp only [hresp] at hr
    split_ifs at hr with hpanic
    obtain rfl := Except.ok.inj hr
    have hfits : Fits first.message.tool_calls.length := by
      simp only [List.any_cons, Bool.or_eq_true, not_or] at hpanic
      simpa using hpanic.1
    have hindex : ∀ f ∈ t.fragments, Fits (f.index + 1) := by
      intro f hf
      have hlt := hencodes.index f hf
      unfold Fits at hfits ⊢
      omega
    have hfeed := feedAll_transcript hsent hindex
    have hstate := emitAll_transcript {} t hencodes.chunks
    have hslots : ∀ i tc, first.message.tool_calls[i]? = some tc → ∃ f, tc.function = some f ∧
        f.name ≠ "" ∧ slotAt (t.fragments.foldl put []) i =
          { id := tc.id, name := f.name, arguments := f.arguments } := by
      intro i tc htc
      obtain ⟨f, hmake⟩ := hencodes.calls i tc htc
      refine ⟨f, hmake.function, hmake.named, ?_⟩
      rw [slotAt_foldl_put, foldl_addPiece]
      show ToolSlot.mk _ ("" ++ _) ("" ++ _) = _
      rw [String.empty_append, String.empty_append]
      exact congr (congr (congrArg ToolSlot.mk hmake.id) hmake.name) hmake.arguments
    have htools := toolCalls_of_slots
      (length_foldl_put [] t.fragments (Nat.zero_le _) hencodes.index) hslots
    refine ⟨(emitAll handle {} t).1, (emitAll handle {} t).2, hfeed, ?_, ?_⟩
    · rw [joined_run, hstate]
      show "" ++ _ = _
      rw [String.empty_append]
      exact hencodes.content
    · rw [hstate]
      unfold OpenAiStream.finish
      rw [if_pos rfl]
      dsimp only
      rw [htools, hencodes.stop_reason, hencodes.usage, hencodes.content, String.empty_append]

end OpenAiCompat

end Ai
