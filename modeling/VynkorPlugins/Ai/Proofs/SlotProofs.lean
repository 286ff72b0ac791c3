import Mathlib.Data.List.Induction
import Mathlib.Data.List.Infix
import VynkorPlugins.Ai.Transcript

/-!
# The slots of streamed tool calls

What any payloads can make of a stream parser: how many slots it keeps for tool calls, and whether it
panics.
-/

namespace Ai

/-! ## Received entries -/

def Block.isTool : Block → Bool
  | .text _ => false
  | .tool .. => true

/-- The tool call that an event opens a block for. -/
def AnthropicStream.entries (v : Json) : List Json :=
  let block := (v.get "content_block").getD .null
  if strOf v "type" = some "content_block_start" ∧ strOf block "type" = some "tool_use" then [block] else []

namespace OpenAiStream

/-- The index in an entry of `delta.tool_calls`. -/
def indexOf (tc : Json) : Nat := ((tc.get "index").bind Json.asU64).getD 0

/-- The `delta.tool_calls` of a chunk. -/
def entries (v : Json) : List Json :=
  match v.get "error", v.pointer "/choices/0".toList with
  | none, some choice => ((((choice.get "delta").getD .null).get "tool_calls").map items).getD []
  | _, _ => []

end OpenAiStream

/-- The tool-call entries in a payload. -/
def Provider.received (serde : Serde) (provider : Provider) (data : String) : List Json :=
  match provider, serde.fromStr data with
  | .anthropic, .ok v => AnthropicStream.entries v
  | .openAi, .ok v => if Rust.trim data = "[DONE]" then [] else OpenAiStream.entries v
  | _, .error _ => []

namespace StreamParser

/-- How many slots there are for tool calls. -/
def slots : StreamParser → Nat
  | .anthropic s => s.blocks.countP Block.isTool
  | .openAi s => s.tools.length

/-- The parser after a payload, if it did not panic. A payload that is refused changes nothing. -/
def take (serde : Serde) (s : StreamParser) (data : String) : Option StreamParser :=
  match s.feed serde data with
  | .ok r => some r.1
  | .error (.error _) => some s
  | .error .panic => none

end StreamParser

namespace Provider

variable (serde : Serde) (provider : Provider) (data : List String)

def run : Option StreamParser := data.foldlM (StreamParser.take serde) provider.streamParser

/-- The parser takes each payload and can be finished after it, with at most as many slots as there were
    entries. -/
def Safe : Prop :=
  ∀ seen, seen <+: data → ∃ s, provider.run serde seen = some s ∧ s.finish serde ≠ .error .panic ∧
    s.slots ≤ (seen.flatMap (provider.received serde)).length

/-- No index is beyond the entries received when its payload was taken. -/
def Bounded : Prop :=
  ∀ seen, seen <+: data → ∀ tc ∈ seen.flatMap (openAi.received serde),
    OpenAiStream.indexOf tc < (seen.flatMap (openAi.received serde)).length ∧
      Fits (OpenAiStream.indexOf tc + 1)

end Provider

variable {serde : Serde} {data : String} {seen : List String}

theorem Provider.run_concat (provider : Provider) (seen : List String) (data : String) :
    provider.run serde (seen ++ [data]) = (provider.run serde seen).bind (StreamParser.take serde · data) := by
  unfold Provider.run
  rw [List.foldlM_append]
  cases seen.foldlM (StreamParser.take serde) provider.streamParser with
  | none => rfl
  | some s => simp

/-! ## The Messages API -/

namespace AnthropicStream

variable {s s' : AnthropicStream} {v : Json}

theorem startBlock_tools (s : AnthropicStream) (block : Json) :
    (s.startBlock block).1.blocks.countP Block.isTool =
      s.blocks.countP Block.isTool + if strOf block "type" = some "tool_use" then 1 else 0 := by
  unfold startBlock
  split
  · rename_i htype
    simp [htype, List.countP_append, Block.isTool]
  · rename_i htype
    simp [htype, List.countP_append, Block.isTool]
  · rename_i htext htool
    rw [if_neg htool]
    rfl

theorem addDelta_tools (s : AnthropicStream) (v : Json) :
    (s.addDelta v).1.blocks.countP Block.isTool = s.blocks.countP Block.isTool := by
  unfold addDelta
  split
  · rename_i acc _ hlast
    obtain ⟨front, hblocks⟩ := List.getLast?_eq_some_iff.mp hlast
    dsimp only
    rw [hblocks, List.dropLast_concat, List.countP_append, List.countP_append]
    rfl
  · rename_i id name json _ hlast
    obtain ⟨front, hblocks⟩ := List.getLast?_eq_some_iff.mp hlast
    dsimp only
    rw [hblocks, List.dropLast_concat, List.countP_append, List.countP_append]
    rfl
  · rfl

/-- An event opens one slot for each entry in it. -/
theorem onEvent_tools {r : AnthropicStream × List StreamDelta} (h : s.onEvent v = .ok r) :
    r.1.blocks.countP Block.isTool = s.blocks.countP Block.isTool + (entries v).length := by
  by_cases htype : strOf v "type" = some "content_block_start"
  · have hr : r = s.startBlock ((v.get "content_block").getD .null) := by
      simpa [onEvent, htype] using h.symm
    rw [hr, startBlock_tools]
    unfold entries
    by_cases htool : strOf ((v.get "content_block").getD .null) "type" = some "tool_use"
    · simp [htype, htool]
    · simp [htool]
  · have hnone : entries v = [] := by
      unfold entries
      exact if_neg fun hboth => htype hboth.1
    have hne : (strOf v "type").getD "" ≠ "content_block_start" := by
      intro heq
      cases hv : strOf v "type" with
      | none => simp [hv] at heq
      | some t => exact htype (by rw [hv, ← heq, hv]; rfl)
    rw [hnone]
    unfold onEvent at h
    split at h
    · obtain rfl := Except.ok.inj h
      rfl
    · rename_i heq
      exact absurd heq hne
    · obtain rfl := Except.ok.inj h
      exact addDelta_tools s v
    · obtain rfl := Except.ok.inj h
      rfl
    · cases h
    · obtain rfl := Except.ok.inj h
      rfl

/-- There is no entry in an event that is refused. -/
theorem entries_of_error {e : Fail} (h : s.onEvent v = .error e) : entries v = [] := by
  unfold entries
  refine if_neg fun hboth => ?_
  simp [onEvent, hboth.1] at h

theorem onEvent_not_panic : s.onEvent v ≠ .error .panic := by
  unfold onEvent
  split <;> simp

/-- Nothing panics, and there is a slot for each entry. -/
theorem run_anthropic (serde : Serde) (seen : List String) :
    ∃ s : AnthropicStream, Provider.anthropic.run serde seen = some (.anthropic s) ∧
      s.blocks.countP Block.isTool = (seen.flatMap (Provider.anthropic.received serde)).length := by
  induction seen using List.reverseRecOn with
  | nil => exact ⟨{}, rfl, rfl⟩
  | append_singleton seen data ih =>
    obtain ⟨s, hrun, hslots⟩ := ih
    rw [Provider.run_concat, hrun, List.flatMap_append, List.length_append, ← hslots, List.flatMap_singleton]
    cases hread : serde.fromStr data with
    | error e =>
      refine ⟨s, ?_, ?_⟩
      · simp [StreamParser.take, StreamParser.feed, feed, hread, Except.map]
      · simp [Provider.received, hread]
    | ok v =>
      have hreceived : Provider.anthropic.received serde data = entries v := by simp [Provider.received, hread]
      rw [hreceived]
      cases hevent : s.onEvent v with
      | ok r =>
        refine ⟨r.1, ?_, onEvent_tools hevent⟩
        simp [StreamParser.take, StreamParser.feed, feed, hread, hevent, Except.map]
      | error e =>
        rw [entries_of_error hevent]
        cases e with
        | error e =>
          refine ⟨s, ?_, rfl⟩
          simp [StreamParser.take, StreamParser.feed, feed, hread, hevent, Except.map]
        | panic => exact absurd hevent onEvent_not_panic

end AnthropicStream

/-! ## Chat completions -/

theorem Fits.mono {n m : Nat} (h : Fits m) (hle : n ≤ m) : Fits n := by
  unfold Fits at *
  omega

namespace OpenAiStream

variable {s : OpenAiStream} {v tc : Json} {tools : List ToolSlot} {tcs : List Json}

theorem addToolCall_ok (tools : List ToolSlot) (hfits : Fits (indexOf tc + 1)) :
    ∃ tools', addToolCall tools tc = .ok tools' ∧ tools'.length = max tools.length (indexOf tc + 1) := by
  refine ⟨_, if_neg fun hpanic => hpanic.2 hfits, ?_⟩
  rw [List.length_modify, List.length_append, List.length_replicate]
  unfold indexOf
  omega

theorem addToolCall_panic (hn : Fits tools.length) (hfits : ¬ Fits (indexOf tc + 1)) :
    addToolCall tools tc = .error .panic := by
  have hle : tools.length ≤ indexOf tc := by
    by_contra hlt
    exact hfits (hn.mono (by omega))
  exact if_pos ⟨hle, hfits⟩

theorem addToolCalls_ok (hfits : ∀ tc ∈ tcs, Fits (indexOf tc + 1)) (hn : Fits tools.length) :
    ∃ tools', tcs.foldlM addToolCall tools = .ok tools' ∧ Fits tools'.length ∧
      ∀ n, tools'.length ≤ n ↔ tools.length ≤ n ∧ ∀ tc ∈ tcs, indexOf tc < n := by
  induction tcs generalizing tools with
  | nil => exact ⟨tools, rfl, hn, fun n => by simp⟩
  | cons tc tcs ih =>
    have htc := hfits tc List.mem_cons_self
    obtain ⟨tools₁, hadd, hlength⟩ := addToolCall_ok tools htc
    have hfits₁ : Fits tools₁.length := by
      rw [hlength]
      rcases Nat.le_total tools.length (indexOf tc + 1) with hle | hle
      · rwa [Nat.max_eq_right hle]
      · rwa [Nat.max_eq_left hle]
    obtain ⟨tools₂, hfold, hfits₂, hle⟩ := ih (fun tc h => hfits tc (List.mem_cons_of_mem _ h)) hfits₁
    refine ⟨tools₂, ?_, hfits₂, fun n => ?_⟩
    · rw [List.foldlM_cons, hadd]
      exact hfold
    · rw [hle n, hlength, List.forall_mem_cons, ← and_assoc]
      exact and_congr_left fun _ => by omega

theorem addToolCalls_panic (hn : Fits tools.length) (h : ∃ tc ∈ tcs, ¬ Fits (indexOf tc + 1)) :
    tcs.foldlM addToolCall tools = .error .panic := by
  induction tcs generalizing tools with
  | nil =>
    obtain ⟨tc, htc, -⟩ := h
    cases htc
  | cons tc tcs ih =>
    rw [List.foldlM_cons]
    by_cases htc : Fits (indexOf tc + 1)
    · obtain ⟨tools₁, hadd, hlength⟩ := addToolCall_ok tools htc
      have hfits₁ : Fits tools₁.length := by
        rw [hlength]
        rcases Nat.le_total tools.length (indexOf tc + 1) with hle | hle
        · rwa [Nat.max_eq_right hle]
        · rwa [Nat.max_eq_left hle]
      obtain ⟨other, hmem, hother⟩ := h
      rcases List.mem_cons.mp hmem with rfl | hmem
      · exact absurd htc hother
      · rw [hadd]
        exact ih hfits₁ ⟨other, hmem, hother⟩
    · rw [addToolCall_panic hn htc]
      rfl

/-- The slots reach to the greatest index of the entries received. -/
def Keeps (s : OpenAiStream) (tcs : List Json) : Prop :=
  Fits s.tools.length ∧ ∀ n, s.tools.length ≤ n ↔ ∀ tc ∈ tcs, indexOf tc < n

/-- The slots after a chunk that is no error. -/
theorem onChunk_tools {choice : Json} (herror : v.get "error" = none)
    (hchoice : v.pointer "/choices/0".toList = some choice) :
    (∀ tools', (entries v).foldlM addToolCall s.tools = .ok tools' →
      ∃ r, s.onChunk v = .ok r ∧ r.1.tools = tools') ∧
    ((entries v).foldlM addToolCall s.tools = .error .panic → s.onChunk v = .error .panic) := by
  have hentries : entries v = ((((choice.get "delta").getD .null).get "tool_calls").map items).getD [] := by
    simp only [entries, herror, hchoice]
  constructor
  · intro tools' hfold
    rw [hentries] at hfold
    simp only [onChunk, herror, hchoice, hfold]
    exact ⟨_, rfl, rfl⟩
  · intro hfold
    rw [hentries] at hfold
    simp only [onChunk, herror, hchoice, hfold]

/-- A chunk with no choice, or an error, has no entries and adds no slots. -/
theorem onChunk_empty (h : v.get "error" ≠ none ∨ v.pointer "/choices/0".toList = none) :
    entries v = [] ∧
      ((∃ e, s.onChunk v = .error (.error e)) ∨ ∃ r, s.onChunk v = .ok r ∧ r.1.tools = s.tools) := by
  cases herror : v.get "error" with
  | some e => exact ⟨by simp only [entries, herror], .inl ⟨_, by simp only [onChunk, herror]; rfl⟩⟩
  | none =>
    have hnone : v.pointer "/choices/0".toList = none := h.resolve_left fun hne => hne herror
    refine ⟨by simp only [entries, herror, hnone], .inr ⟨_, by simp only [onChunk, herror, hnone]; rfl, rfl⟩⟩

variable {seen : List Json}

theorem Keeps.take (h : s.Keeps seen) (s' : OpenAiStream)
    (hfits : Fits s'.tools.length)
    (hle : ∀ n, s'.tools.length ≤ n ↔ s.tools.length ≤ n ∧ ∀ tc ∈ tcs, indexOf tc < n) :
    s'.Keeps (seen ++ tcs) := by
  refine ⟨hfits, fun n => ?_⟩
  rw [hle n, h.2 n, List.forall_mem_append]

theorem take_chunk {r : OpenAiStream × List StreamDelta} (hdone : Rust.trim data ≠ "[DONE]")
    (hread : serde.fromStr data = .ok v) (h : s.onChunk v = .ok r) :
    (StreamParser.openAi s).take serde data = some (.openAi r.1) := by
  simp [StreamParser.take, StreamParser.feed, feed, hdone, hread, h, Except.map]

/-- A payload whose indices fit is taken. -/
theorem take_ok (h : s.Keeps seen)
    (hfits : ∀ tc ∈ Provider.openAi.received serde data, Fits (indexOf tc + 1)) :
    ∃ s', (StreamParser.openAi s).take serde data = some (.openAi s') ∧
      s'.Keeps (seen ++ Provider.openAi.received serde data) := by
  by_cases hdone : Rust.trim data = "[DONE]"
  · have hnone : Provider.openAi.received serde data = [] := by
      cases hread : serde.fromStr data <;> simp [Provider.received, hread, hdone]
    rw [hnone, List.append_nil]
    exact ⟨s, by simp [StreamParser.take, StreamParser.feed, feed, hdone, Except.map], h⟩
  cases hread : serde.fromStr data with
  | error e =>
    have hnone : Provider.openAi.received serde data = [] := by simp [Provider.received, hread]
    rw [hnone, List.append_nil]
    exact ⟨s, by simp [StreamParser.take, StreamParser.feed, feed, hdone, hread, Except.map], h⟩
  | ok v =>
    have hreceived : Provider.openAi.received serde data = entries v := by
      simp [Provider.received, hread, hdone]
    rw [hreceived] at hfits ⊢
    by_cases hempty : v.get "error" ≠ none ∨ v.pointer "/choices/0".toList = none
    · obtain ⟨hnone, hchunk⟩ := onChunk_empty (s := s) hempty
      rw [hnone, List.append_nil]
      rcases hchunk with ⟨e, hchunk⟩ | ⟨r, hchunk, htools⟩
      · exact ⟨s, by simp [StreamParser.take, StreamParser.feed, feed, hdone, hread, hchunk, Except.map], h⟩
      · refine ⟨r.1, take_chunk hdone hread hchunk, ?_⟩
        unfold Keeps
        rw [htools]
        exact h
    · push Not at hempty
      obtain ⟨choice, hchoice⟩ := Option.ne_none_iff_exists'.mp hempty.2
      obtain ⟨tools', hfold, hfits', hle⟩ := addToolCalls_ok hfits h.1
      obtain ⟨r, hchunk, rfl⟩ := (onChunk_tools hempty.1 hchoice).1 tools' hfold
      exact ⟨r.1, take_chunk hdone hread hchunk, h.take r.1 hfits' hle⟩

theorem take_panic (h : s.Keeps seen)
    (hfits : ∃ tc ∈ Provider.openAi.received serde data, ¬ Fits (indexOf tc + 1)) :
    (StreamParser.openAi s).take serde data = none := by
  obtain ⟨tc, htc, hnot⟩ := hfits
  by_cases hdone : Rust.trim data = "[DONE]"
  · cases hread : serde.fromStr data <;> simp [Provider.received, hread, hdone] at htc
  cases hread : serde.fromStr data with
  | error e => simp [Provider.received, hread] at htc
  | ok v =>
    replace htc : tc ∈ entries v := by simpa [Provider.received, hread, hdone] using htc
    have hfull : ¬ (v.get "error" ≠ none ∨ v.pointer "/choices/0".toList = none) := by
      intro hempty
      rw [(onChunk_empty (s := s) hempty).1] at htc
      cases htc
    push Not at hfull
    obtain ⟨choice, hchoice⟩ := Option.ne_none_iff_exists'.mp hfull.2
    have hpanic := (onChunk_tools hfull.1 hchoice).2 (addToolCalls_panic h.1 ⟨tc, htc, hnot⟩)
    simp [StreamParser.take, StreamParser.feed, feed, hdone, hread, hpanic, Except.map]

theorem run_openAi (serde : Serde) (seen : List String)
    (hfits : ∀ tc ∈ seen.flatMap (Provider.openAi.received serde), Fits (indexOf tc + 1)) :
    ∃ s : OpenAiStream, Provider.openAi.run serde seen = some (.openAi s) ∧
      s.Keeps (seen.flatMap (Provider.openAi.received serde)) := by
  induction seen using List.reverseRecOn with
  | nil =>
    refine ⟨{}, rfl, ?_, fun n => ?_⟩
    · show 72 * 0 ≤ isizeMax
      omega
    · simp
  | append_singleton seen data ih =>
    rw [List.flatMap_append, List.flatMap_singleton] at hfits ⊢
    obtain ⟨s, hrun, hkeeps⟩ := ih fun tc htc => hfits tc (List.mem_append_left _ htc)
    obtain ⟨s', htake, hkeeps'⟩ := take_ok hkeeps fun tc htc => hfits tc (List.mem_append_right _ htc)
    refine ⟨s', ?_, hkeeps'⟩
    rw [Provider.run_concat, hrun]
    exact htake

/-- The first payload with an index that does not fit makes the parser panic. -/
theorem run_panics {seen : List String}
    (h : ∃ tc ∈ seen.flatMap (Provider.openAi.received serde), ¬ Fits (indexOf tc + 1)) :
    Provider.openAi.run serde seen = none := by
  induction seen using List.reverseRecOn with
  | nil =>
    obtain ⟨tc, htc, -⟩ := h
    cases htc
  | append_singleton seen data ih =>
    rw [Provider.run_concat]
    by_cases hfits : ∀ tc ∈ seen.flatMap (Provider.openAi.received serde), Fits (indexOf tc + 1)
    · obtain ⟨s, hrun, hkeeps⟩ := run_openAi serde seen hfits
      rw [hrun]
      refine take_panic hkeeps ?_
      obtain ⟨tc, htc, hnot⟩ := h
      rw [List.flatMap_append, List.flatMap_singleton] at htc
      rcases List.mem_append.mp htc with htc | htc
      · exact absurd (hfits tc htc) hnot
      · exact ⟨tc, htc, hnot⟩
    · push Not at hfits
      rw [ih hfits]
      rfl

end OpenAiStream

/-! ## Both -/

/-- A parser is safe from payloads unless it sizes its slots by what they say. -/
theorem safe_iff_bounded (serde : Serde) (provider : Provider) (data : List String) :
    provider.Safe serde data ↔ (provider = .openAi → Provider.Bounded serde data) := by
  cases provider with
  | anthropic =>
    refine iff_of_true (fun seen _ => ?_) fun h => by cases h
    obtain ⟨s, hrun, hslots⟩ := AnthropicStream.run_anthropic serde seen
    refine ⟨_, hrun, ?_, Nat.le_of_eq hslots⟩
    show s.finish serde ≠ _
    unfold AnthropicStream.finish
    split_ifs <;> simp
  | openAi =>
    rw [show (Provider.openAi = .openAi → Provider.Bounded serde data) ↔ Provider.Bounded serde data from
      ⟨fun h => h rfl, fun h _ => h⟩]
    refine forall₂_congr fun seen _ => ?_
    by_cases hfits : ∀ tc ∈ seen.flatMap (Provider.openAi.received serde), Fits (OpenAiStream.indexOf tc + 1)
    · obtain ⟨s, hrun, hkeeps⟩ := OpenAiStream.run_openAi serde seen hfits
      have hfinish : (StreamParser.openAi s).finish serde ≠ .error .panic := by
        show s.finish ≠ _
        unfold OpenAiStream.finish
        split_ifs <;> simp
      constructor
      · rintro ⟨_, hsome, -, hle⟩ tc htc
        obtain rfl := Option.some.inj (hrun.symm.trans hsome)
        exact ⟨(hkeeps.2 _).mp hle tc htc, hfits tc htc⟩
      · intro h
        exact ⟨_, hrun, hfinish, (hkeeps.2 _).mpr fun tc htc => (h tc htc).1⟩
    · refine iff_of_false ?_ fun h => hfits fun tc htc => (h tc htc).2
      push Not at hfits
      rintro ⟨s, hsome, -⟩
      rw [OpenAiStream.run_panics hfits] at hsome
      cases hsome

/-- One entry with the index 5. -/
def lateEntry : Json :=
  .obj [("choices", .arr [.obj [("delta", .obj [("tool_calls", .arr [.obj [("index", .int 5)]])])]])]

/-- It has six slots made. -/
theorem not_safe_lateEntry :
    ¬ ∀ (serde : Serde) (provider : Provider) (data : List String), provider.Safe serde data := by
  intro h
  obtain ⟨s, hrun, -, hle⟩ := h .compact .openAi [lateEntry.print] _ (List.prefix_refl _)
  have hread : Serde.compact.fromStr lateEntry.print = .ok lateEntry := by
    rw [Serde.fromStr_print]
    rfl
  have hdone : Rust.trim lateEntry.print ≠ "[DONE]" := by decide
  have hentries : Provider.openAi.received .compact lateEntry.print = [.obj [("index", .int 5)]] := by
    simp only [Provider.received, hread, if_neg hdone]
    rfl
  have hfits : ∀ tc ∈ [Json.obj [("index", .int 5)]], Fits (OpenAiStream.indexOf tc + 1) := by
    intro tc htc
    obtain rfl := List.mem_singleton.mp htc
    show 72 * (5 + 1) ≤ isizeMax
    decide
  rw [List.flatMap_singleton, hentries] at hle
  have hall := OpenAiStream.run_openAi .compact [lateEntry.print]
  rw [List.flatMap_singleton, hentries] at hall
  obtain ⟨s', hrun', -, hslots⟩ := hall hfits
  obtain rfl := Option.some.inj (hrun.symm.trans hrun')
  have hlate := (hslots 1).mp hle _ (List.mem_singleton_self _)
  exact absurd hlate (by decide)

end Ai
