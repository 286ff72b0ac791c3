import VynkorPlugins.Ai.Transcript
import VynkorPlugins.Base.Pieces
import Mathlib.Tactic.SplitIfs

/-!
# Messages that are streamed

What the parser of the Messages API makes of the events of a transcript.
-/

namespace Ai

open Streaming

namespace Anthropic

variable {serde : Serde} {s : AnthropicStream} {deltas : List Delta} {parts : List Part}

/-! ## One event -/

/-- The last block takes what is for a block of its kind. -/
def extend (deltas : List Delta) : Block → Block
  | .text s => .text (s ++ texts deltas)
  | .tool id name json => .tool id name (json ++ jsons deltas)

def extendLast (blocks : List Block) (deltas : List Delta) : List Block :=
  match blocks.getLast? with
  | some b => blocks.dropLast ++ [extend deltas b]
  | none => blocks

/-- The text of an increment that is passed on: the last block is a text. -/
def surfaced (blocks : List Block) : Delta → List StreamDelta
  | .text t => if (blocks.getLast?.any Block.isText) = true then [.text t] else []
  | .json _ => []

/-- What the parser does with an event. -/
def handle (s : AnthropicStream) : Event → AnthropicStream × List StreamDelta
  | .messageStart input output =>
    ({ s with started := true, input_tokens := input, output_tokens := output }, [])
  | .blockStart block => s.startBlock block
  | .textDelta t =>
    ({ s with blocks := extendLast s.blocks [.text t] }, surfaced s.blocks (.text t))
  | .jsonDelta t => ({ s with blocks := extendLast s.blocks [.json t] }, [])
  | .messageDelta stop_reason output =>
    ({ s with
      stop_reason := stop_reason.getD s.stop_reason
      output_tokens := output.getD s.output_tokens }, [])
  | .quiet => (s, [])

theorem texts_append (ds ds' : List Delta) : texts (ds ++ ds') = texts ds ++ texts ds' := by
  unfold texts
  rw [List.map_append, String.join_append]

theorem jsons_append (ds ds' : List Delta) : jsons (ds ++ ds') = jsons ds ++ jsons ds' := by
  unfold jsons
  rw [List.map_append, String.join_append]

theorem extend_nil (b : Block) : extend [] b = b := by
  cases b <;> simp [extend, texts, jsons]

theorem extend_append (ds ds' : List Delta) (b : Block) :
    extend (ds ++ ds') b = extend ds' (extend ds b) := by
  cases b with
  | text s =>
    show Block.text _ = Block.text _
    rw [texts_append, String.append_assoc]
  | tool id name json =>
    show Block.tool _ _ _ = Block.tool _ _ _
    rw [jsons_append, String.append_assoc]

theorem extendLast_concat (blocks : List Block) (b : Block) (ds : List Delta) :
    extendLast (blocks ++ [b]) ds = blocks ++ [extend ds b] := by
  simp [extendLast]

@[simp]
theorem extendLast_nil_left (ds : List Delta) : extendLast [] ds = [] := rfl

theorem extendLast_nil (blocks : List Block) : extendLast blocks [] = blocks := by
  rcases List.eq_nil_or_concat blocks with rfl | ⟨init, b, rfl⟩
  · rfl
  · rw [List.concat_eq_append, extendLast_concat, extend_nil]

theorem extendLast_append (blocks : List Block) (ds ds' : List Delta) :
    extendLast (extendLast blocks ds) ds' = extendLast blocks (ds ++ ds') := by
  rcases List.eq_nil_or_concat blocks with rfl | ⟨init, b, rfl⟩
  · rfl
  · rw [List.concat_eq_append, extendLast_concat, extendLast_concat, extendLast_concat,
      extend_append]

theorem addDelta_text {v : Json} {t : String} (htype : strAt v "/delta/type" = some "text_delta")
    (htext : strAt v "/delta/text" = some t) : s.addDelta v = handle s (.textDelta t) := by
  obtain ⟨blocks, started, stop_reason, input, output⟩ := s
  simp only [AnthropicStream.addDelta, handle, surfaced, htype, htext]
  rcases List.eq_nil_or_concat blocks with rfl | ⟨init, b, rfl⟩
  · rfl
  · rw [List.concat_eq_append, extendLast_concat]
    cases b with
    | text acc => simp [extend, texts, Delta.textPart, Block.isText]
    | tool id name json => simp [extend, jsons, Delta.jsonPart, Block.isText]

theorem addDelta_json {v : Json} {t : String}
    (htype : strAt v "/delta/type" = some "input_json_delta")
    (htext : strAt v "/delta/partial_json" = some t) : s.addDelta v = handle s (.jsonDelta t) := by
  obtain ⟨blocks, started, stop_reason, input, output⟩ := s
  simp only [AnthropicStream.addDelta, handle, htype, htext]
  rcases List.eq_nil_or_concat blocks with rfl | ⟨init, b, rfl⟩
  · rfl
  · rw [List.concat_eq_append, extendLast_concat]
    cases b with
    | text acc => simp [extend, texts, Delta.textPart]
    | tool id name json => simp [extend, jsons, Delta.jsonPart]

theorem addDelta_other {v : Json} (htext : strAt v "/delta/type" ≠ some "text_delta")
    (hjson : strAt v "/delta/type" ≠ some "input_json_delta") : s.addDelta v = (s, []) := by
  unfold AnthropicStream.addDelta
  split
  · next h _ => exact absurd h htext
  · next h _ => exact absurd h hjson
  · rfl

/-- The parser takes a value that says an event as the event. -/
theorem onEvent_eq {v : Json} {e : Event} (h : e.Says v) : s.onEvent v = .ok (handle s e) := by
  unfold AnthropicStream.onEvent
  cases e with
  | messageStart input output =>
    obtain ⟨htype, hinput, houtput⟩ := h
    rw [htype, hinput, houtput]
    rfl
  | blockStart block =>
    obtain ⟨htype, hblock⟩ := h
    rw [htype, hblock]
    rfl
  | textDelta t =>
    obtain ⟨htype, hdelta, htext⟩ := h
    rw [htype]
    exact congrArg Except.ok (addDelta_text hdelta htext)
  | jsonDelta t =>
    obtain ⟨htype, hdelta, htext⟩ := h
    rw [htype]
    exact congrArg Except.ok (addDelta_json hdelta htext)
  | messageDelta stop_reason output =>
    obtain ⟨htype, hstop, houtput⟩ := h
    rw [htype, hstop, houtput]
    rfl
  | quiet =>
    rcases h with hquiet | ⟨htype, htext, hjson⟩
    · have hne : ∀ type ∈ spokenTypes, (strOf v "type").getD "" ≠ type := by
        intro type hmem heq
        cases hv : strOf v "type" with
        | none =>
          rw [hv] at heq
          subst heq
          simp [spokenTypes] at hmem
        | some t =>
          rw [hv] at heq
          exact hquiet type hmem (by rw [hv, ← heq]; rfl)
      simp only [spokenTypes, List.mem_cons, List.not_mem_nil, or_false, forall_eq_or_imp,
        forall_eq] at hne
      obtain ⟨hstart, hblock, hdelta, hmessage, herror⟩ := hne
      split
      · next h => exact absurd h hstart
      · next h => exact absurd h hblock
      · next h => exact absurd h hdelta
      · next h => exact absurd h hmessage
      · next h => exact absurd h herror
      · rfl
    · rw [htype]
      exact congrArg Except.ok (addDelta_other htext hjson)

/-! ## The blocks of a transcript -/

/-- The block that the start of a part opens. -/
def opened (p : Part) : List Block :=
  if strOf p.start "type" = some "text" then [.text ((strOf p.start "text").getD "")]
  else if strOf p.start "type" = some "tool_use" then
    [.tool ((strOf p.start "id").getD "") ((strOf p.start "name").getD "") ""]
  else []

/-- The blocks that are kept for some parts. -/
def blocksOf : List Part → List Block
  | [] => []
  | p :: rest => (opened p).map (extend (p.deltas ++ trailing rest)) ++ blocksOf rest

theorem blocksOf_cons (p : Part) (rest : List Part) :
    blocksOf (p :: rest) = (opened p).map (extend (p.deltas ++ trailing rest)) ++ blocksOf rest := rfl

theorem startBlock_blocks (s : AnthropicStream) (p : Part) :
    (s.startBlock p.start).1 = { s with blocks := s.blocks ++ opened p } := by
  unfold AnthropicStream.startBlock opened
  split
  · next h => rw [if_pos h]
  · next h =>
    rw [h]
    rfl
  · next htext htool =>
    rw [if_neg htext, if_neg htool, List.append_nil]

theorem emitAll_deltas (s : AnthropicStream) (ds : List Delta) :
    (emitAll handle s (ds.map Delta.event)).1 = { s with blocks := extendLast s.blocks ds } := by
  induction ds generalizing s with
  | nil =>
    rw [extendLast_nil]
    rfl
  | cons d ds ih =>
    rw [List.map_cons, emitAll_cons, ih]
    cases d with
    | text t =>
      show ({ s with blocks := extendLast (extendLast s.blocks [.text t]) ds } : AnthropicStream) = _
      rw [extendLast_append, List.singleton_append]
    | json t =>
      show ({ s with blocks := extendLast (extendLast s.blocks [.json t]) ds } : AnthropicStream) = _
      rw [extendLast_append, List.singleton_append]

theorem emitAll_part (s : AnthropicStream) (p : Part) :
    (emitAll handle s p.events).1 =
      { s with blocks := extendLast (s.blocks ++ opened p) p.deltas } := by
  unfold Part.events
  rw [emitAll_cons]
  show (emitAll handle (s.startBlock p.start).1 (p.deltas.map Delta.event)).1 = _
  rw [startBlock_blocks, emitAll_deltas]

theorem opened_of_tracked {p : Part} (h : p.tracked = true) : ∃ b, opened p = [b] := by
  unfold Part.tracked at h
  unfold opened
  rcases Bool.or_eq_true_iff.mp h with htext | htool
  · exact ⟨_, if_pos (of_decide_eq_true htext)⟩
  · by_cases htext : strOf p.start "type" = some "text"
    · exact ⟨_, if_pos htext⟩
    · exact ⟨_, by rw [if_neg htext, if_pos (of_decide_eq_true htool)]⟩

theorem opened_of_not_tracked {p : Part} (h : p.tracked = false) : opened p = [] := by
  unfold Part.tracked at h
  obtain ⟨htext, htool⟩ := Bool.or_eq_false_iff.mp h
  unfold opened
  rw [if_neg (of_decide_eq_false htext), if_neg (of_decide_eq_false htool)]

/-- The increments up to the next block that is kept go to the last one before them. -/
theorem emitAll_parts (s : AnthropicStream) (parts : List Part) :
    (emitAll handle s (parts.flatMap Part.events)).1 =
      { s with blocks := extendLast s.blocks (trailing parts) ++ blocksOf parts } := by
  induction parts generalizing s with
  | nil =>
    show s = { s with blocks := extendLast s.blocks [] ++ [] }
    rw [extendLast_nil, List.append_nil]
  | cons p rest ih =>
    rw [List.flatMap_cons, emitAll_append_fst, emitAll_part, ih]
    dsimp only
    congr 1
    rw [blocksOf_cons]
    cases htracked : p.tracked with
    | true =>
      obtain ⟨b, hb⟩ := opened_of_tracked htracked
      have htrailing : trailing (p :: rest) = [] := by simp [trailing, htracked]
      rw [hb, htrailing, extendLast_nil, extendLast_concat, extendLast_concat, List.map_singleton,
        extend_append, List.append_assoc]
    | false =>
      have htrailing : trailing (p :: rest) = p.deltas ++ trailing rest := by
        simp [trailing, htracked]
      rw [opened_of_not_tracked htracked, htrailing, List.append_nil, extendLast_append]
      rfl

theorem emitAll_closing (s : AnthropicStream) (closing : List (Option String × Option Nat)) :
    (emitAll handle s (closing.map fun c => .messageDelta c.1 c.2)).1 =
      { s with
        stop_reason := (closing.filterMap Prod.fst).getLast?.getD s.stop_reason
        output_tokens := (closing.filterMap Prod.snd).getLast?.getD s.output_tokens } := by
  induction closing generalizing s with
  | nil => rfl
  | cons c closing ih =>
    obtain ⟨stop_reason, output⟩ := c
    rw [List.map_cons, emitAll_cons, ih]
    cases stop_reason <;> cases output <;> simp [handle, List.getLast?_cons]

/-- The state of the parser after a transcript. -/
theorem emitAll_transcript (t : Transcript) :
    (emitAll handle {} t.events).1 =
      { blocks := blocksOf t.parts
        started := true
        stop_reason := (t.closing.filterMap Prod.fst).getLast?.getD ""
        input_tokens := t.input
        output_tokens := (t.closing.filterMap Prod.snd).getLast?.getD t.output } := by
  unfold Transcript.events
  rw [emitAll_cons, emitAll_append_fst, emitAll_parts, emitAll_closing]
  rfl

/-! ## What is passed on -/

theorem texts_text (t : String) : texts [.text t] = t := by
  simp [texts, Delta.textPart]

theorem texts_json (t : String) : texts [.json t] = "" := by
  simp [texts, Delta.textPart]

/-- The texts that were passed on are those of the blocks. -/
def PassedOn (s : AnthropicStream) (out : List StreamDelta) : Prop :=
  joined out = joinLines (s.blocks.filterMap AnthropicStream.textOf)

theorem joined_append (out out' : List StreamDelta) : joined (out ++ out') = joined out ++ joined out' := by
  unfold joined
  rw [List.map_append, String.join_append]

theorem filterMap_textOf_eq_nil {blocks : List Block} (h : blocks.any Block.isText = false) :
    blocks.filterMap AnthropicStream.textOf = [] := by
  rw [List.filterMap_eq_nil_iff]
  intro b hb
  have hnot := List.any_eq_false.mp h b hb
  cases b with
  | text s => exact absurd rfl hnot
  | tool id name json => rfl

theorem filterMap_textOf_ne_nil {blocks : List Block} (h : blocks.any Block.isText = true) :
    blocks.filterMap AnthropicStream.textOf ≠ [] := by
  obtain ⟨b, hb, htext⟩ := List.any_eq_true.mp h
  cases b with
  | tool id name json => cases htext
  | text s =>
    have hmem := List.mem_filterMap.mpr ⟨Block.text s, hb, (rfl : AnthropicStream.textOf _ = some s)⟩
    exact List.ne_nil_of_mem hmem

theorem passedOn_startBlock {out : List StreamDelta} (h : PassedOn s out) (block : Json) :
    PassedOn (s.startBlock block).1 (out ++ (s.startBlock block).2) := by
  unfold AnthropicStream.startBlock
  split
  · set text := (strOf block "text").getD "" with htext
    have hpiece : joined (if text = "" then [] else [StreamDelta.text text]) = text := by
      split_ifs with hempty
      · rw [hempty]
        rfl
      · simp [joined, StreamDelta.str]
    unfold PassedOn at h ⊢
    rw [joined_append, joined_append, hpiece, List.filterMap_append, h]
    show _ = joinLines (_ ++ [text])
    unfold joinLines
    rw [Joined.concat]
    cases hany : s.blocks.any Block.isText with
    | true =>
      rw [if_neg (filterMap_textOf_ne_nil hany), if_pos rfl, String.append_assoc]
      rfl
    | false =>
      rw [if_pos (filterMap_textOf_eq_nil hany), filterMap_textOf_eq_nil hany, if_neg Bool.false_ne_true]
      simp [joined]
  · unfold PassedOn at h ⊢
    rw [List.append_nil, h, List.filterMap_append]
    show _ = joinLines (_ ++ [])
    rw [List.append_nil]
  · rwa [List.append_nil]

theorem passedOn_step (s : AnthropicStream) (out : List StreamDelta) (e : Event) (h : PassedOn s out) :
    PassedOn (handle s e).1 (out ++ (handle s e).2) := by
  cases e with
  | blockStart block => exact passedOn_startBlock h block
  | messageStart input output => rwa [show (handle s (.messageStart input output)).2 = [] from rfl,
      List.append_nil]
  | messageDelta stop_reason output =>
    rwa [show (handle s (.messageDelta stop_reason output)).2 = [] from rfl, List.append_nil]
  | quiet => rwa [show (handle s .quiet).2 = [] from rfl, List.append_nil]
  | textDelta t =>
    obtain ⟨blocks, started, stop_reason, input, output⟩ := s
    unfold PassedOn at h ⊢
    simp only [handle, surfaced] at h ⊢
    rw [joined_append, h]
    rcases List.eq_nil_or_concat blocks with rfl | ⟨init, b, rfl⟩
    · rfl
    · rw [List.concat_eq_append, extendLast_concat]
      cases b with
      | text acc =>
        simp only [List.filterMap_append, extend, texts_text]
        show _ = joinLines (_ ++ [acc ++ t])
        unfold joinLines
        rw [Joined.concat_append]
        simp [joined, StreamDelta.str, Block.isText, AnthropicStream.textOf]
      | tool id name json =>
        have hnone (json : String) : [Block.tool id name json].filterMap AnthropicStream.textOf = [] := rfl
        simp [extend, joined, Block.isText, hnone]
  | jsonDelta t =>
    obtain ⟨blocks, started, stop_reason, input, output⟩ := s
    unfold PassedOn at h ⊢
    simp only [handle] at h ⊢
    rw [List.append_nil, h]
    rcases List.eq_nil_or_concat blocks with rfl | ⟨init, b, rfl⟩
    · rfl
    · rw [List.concat_eq_append, extendLast_concat]
      cases b with
      | text acc =>
        simp [extend, texts_json]
      | tool id name json =>
        simp only [List.filterMap_append, extend]
        rfl

/-- In every run, the deltas add up to the content. -/
theorem passedOn_run (events : List Event) :
    PassedOn (emitAll handle {} events).1 (emitAll handle {} events).2 := by
  have hstart : PassedOn {} [] := rfl
  have hrun := emitAll_invariant PassedOn passedOn_step hstart events
  rwa [List.nil_append] at hrun

/-! ## Against the buffered response -/

theorem reads_iff {text : String} {input : Json} :
    Reads serde text input ↔ AnthropicStream.argumentsJson serde text = input.print := by
  unfold Reads AnthropicStream.argumentsJson
  split_ifs with hblank
  · exact eq_comm
  · cases hread : serde.fromStr text with
    | ok v => simp
    | error e =>
      simp only [reduceCtorEq, false_and, exists_false, false_iff]
      -- what is written for a value is read back
      rintro rfl
      rw [serde.fromStr_print] at hread
      cases hread

theorem opened_of_text {p : Part} (h : strOf p.start "type" = some "text") :
    opened p = [.text ((strOf p.start "text").getD "")] := if_pos h

theorem opened_of_tool {p : Part} (h : strOf p.start "type" = some "tool_use") :
    opened p = [.tool ((strOf p.start "id").getD "") ((strOf p.start "name").getD "") ""] := by
  unfold opened
  rw [if_neg (by rw [h]; decide), if_pos h]

theorem opened_of_other {p : Part} (htext : strOf p.start "type" ≠ some "text")
    (htool : strOf p.start "type" ≠ some "tool_use") : opened p = [] := by
  unfold opened
  rw [if_neg htext, if_neg htool]

/-- The texts and tool calls of the kept blocks are those of the response exactly when nothing else was
    put behind them, and each text is one of the response with something behind it. -/
theorem blocksOf_iff {content : List Json} (h : List.Forall₂ (Part.Encodes serde) parts content) :
    Joined.Grown (content.filterMap textOf) ((blocksOf parts).filterMap AnthropicStream.textOf) ∧
    (((blocksOf parts).filterMap AnthropicStream.textOf = content.filterMap textOf ∧
      (blocksOf parts).filterMap (AnthropicStream.toolOf serde) = content.filterMap toolOf) ↔
      Clean serde parts) := by
  induction h with
  | nil => exact ⟨.nil, by simp [blocksOf, Clean]⟩
  | @cons p block rest content hp hrest ih =>
    rw [blocksOf_cons]
    by_cases htext : strOf block "type" = some "text"
    · obtain ⟨-, hblock⟩ := hp.text htext
      have hstart : strOf p.start "type" = some "text" := hp.type.trans htext
      have hbuffered : textOf block = some _ := (if_pos htext).trans hblock
      have htool : toolOf block = none := if_neg (by rw [htext]; decide)
      rw [opened_of_text hstart, List.map_singleton, List.singleton_append,
        List.filterMap_cons_some hbuffered, List.filterMap_cons_none htool]
      simp only [extend, texts_append]
      rw [List.filterMap_cons_some (f := AnthropicStream.textOf) rfl,
        List.filterMap_cons_none (f := AnthropicStream.toolOf serde) rfl]
      refine ⟨.cons ⟨texts (trailing rest), String.append_assoc.symm⟩ ih.1, ?_⟩
      unfold Clean
      rw [List.cons.injEq, ← String.append_assoc, and_assoc, ih.2, hstart]
      have hsame (a e : String) : a ++ e = a ↔ e = "" := by
        constructor
        · intro he
          have hlen := congrArg String.length he
          rw [String.length_append] at hlen
          exact String.length_eq_zero_iff.mp (by omega)
        · rintro rfl
          exact String.append_empty
      rw [hsame]
      simp
    · by_cases htool : strOf block "type" = some "tool_use"
      · obtain ⟨-, hid, hname, fs, hinput, hreads⟩ := hp.tool htool
        have hstart : strOf p.start "type" = some "tool_use" := hp.type.trans htool
        have hbuffered : toolOf block = some _ := if_pos htool
        have hnotext : textOf block = none := if_neg htext
        rw [opened_of_tool hstart, List.map_singleton, List.singleton_append,
          List.filterMap_cons_none hnotext, List.filterMap_cons_some hbuffered]
        simp only [extend, jsons_append]
        rw [List.filterMap_cons_none (f := AnthropicStream.textOf) rfl,
          List.filterMap_cons_some (f := AnthropicStream.toolOf serde) rfl]
        refine ⟨ih.1, ?_⟩
        rw [reads_iff] at hreads
        have hargs : (∀ input, Reads serde (jsons p.deltas) input →
            Reads serde (jsons p.deltas ++ jsons (trailing rest)) input) ↔
            AnthropicStream.argumentsJson serde (jsons p.deltas ++ jsons (trailing rest)) =
              (Json.obj fs).print := by
          simp only [reads_iff]
          constructor
          · intro hclean
            exact hclean _ hreads
          · intro heq input hinput
            rw [heq, ← hreads, hinput]
        unfold Clean
        rw [hargs, ← ih.2, hstart, List.cons.injEq, ToolCall.mk.injEq, hinput, hid, hname,
          String.empty_append]
        simp only [Option.getD_some, true_and, true_implies, Option.some.injEq]
        constructor
        · rintro ⟨htexts, hargs, htools⟩
          exact ⟨nofun, hargs, htexts, htools⟩
        · rintro ⟨-, hargs, htexts, htools⟩
          exact ⟨htexts, hargs, htools⟩
      · have hstart := hp.type
        have hnotext : textOf block = none := if_neg htext
        have hnotool : toolOf block = none := if_neg htool
        rw [opened_of_other (by rwa [hstart]) (by rwa [hstart]), List.map_nil, List.nil_append,
          List.filterMap_cons_none hnotext, List.filterMap_cons_none hnotool]
        refine ⟨ih.1, ?_⟩
        unfold Clean
        rw [ih.2, hstart]
        simp [htext, htool]

/-- The payloads of a transcript are taken as its events. -/
theorem feedAll_transcript {t : Transcript} {data : List String} (h : t.SentAs serde data) :
    ∃ deltas,
      feedAll (AnthropicStream.feed serde) {} data = .ok ((emitAll handle ({} : AnthropicStream) t.events).1, deltas) ∧
      PassedOn (emitAll handle {} t.events).1 deltas := by
  obtain ⟨events, hloud, hdata⟩ := h
  have hquiet : ∀ s e, Event.loud e = false → handle s e = (s, []) := by
    intro s e he
    cases e <;> first | rfl | cases he
  rw [← hloud, emitAll_filter Event.loud hquiet]
  have htaken : List.Forall₂ (fun e d => ∀ s : AnthropicStream, s.feed serde d = .ok (handle s e))
      events data := by
    refine hdata.imp ?_
    rintro e d ⟨v, hread, hsays⟩ s
    unfold AnthropicStream.feed
    rw [hread]
    exact onEvent_eq hsays
  exact ⟨(emitAll handle {} events).2, feedAll_eq htaken _, passedOn_run events⟩

/-- A streamed message gives what the buffered one gives exactly when nothing that an ignored block
    sends is taken for a part of another block. -/
theorem streams_iff {t : Transcript} {data : List String} {body : ByteArray} {r : ChatResult}
    {fields : List (Option Json)} {resp : Response} (hsent : t.SentAs serde data)
    (hfields : serde.readStruct responseFields body = .ok fields)
    (hresp : readResponse fields = some resp) (hencodes : t.Encodes serde resp)
    (hr : parseResponse serde body = .ok r) :
    (∃ s deltas, feedAll (AnthropicStream.feed serde) {} data = .ok (s, deltas) ∧
      joined deltas = r.content ∧ s.finish serde = .ok r) ↔ Clean serde t.parts := by
  obtain ⟨hgrown, hclean⟩ := blocksOf_iff hencodes.content
  have hbuffered : r = {
      content := joinLines (resp.content.filterMap textOf)
      tool_calls := resp.content.filterMap toolOf
      stop_reason := resp.stop_reason.getD ""
      usage := resp.usage } := by
    unfold parseResponse at hr
    rw [hfields] at hr
    simp only [hresp] at hr
    split_ifs at hr
    exact (Except.ok.inj hr).symm
  obtain ⟨deltas, hfeed, hpassed⟩ := feedAll_transcript hsent
  rw [emitAll_transcript] at hfeed hpassed
  have hcontent : joinLines (resp.content.filterMap textOf) =
      joinLines ((blocksOf t.parts).filterMap AnthropicStream.textOf) ↔
      resp.content.filterMap textOf = (blocksOf t.parts).filterMap AnthropicStream.textOf :=
    Joined.eq_iff hgrown
  rw [← hclean, hbuffered]
  constructor
  · rintro ⟨s, ds, hs, -, hfinish⟩
    obtain ⟨rfl, rfl⟩ := Prod.mk.inj (Except.ok.inj (hfeed.symm.trans hs))
    obtain ⟨htexts, htools, -, -⟩ := ChatResult.mk.inj (Except.ok.inj hfinish)
    exact ⟨(hcontent.mp htexts.symm).symm, htools⟩
  · rintro ⟨htexts, htools⟩
    refine ⟨_, deltas, hfeed, ?_, ?_⟩
    · rw [hpassed, htexts]
    · unfold AnthropicStream.finish
      rw [if_pos rfl]
      dsimp only
      rw [htexts, htools, hencodes.stop_reason, hencodes.input, hencodes.output]

end Anthropic

end Ai
