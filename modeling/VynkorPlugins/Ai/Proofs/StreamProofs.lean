import VynkorPlugins.Ai.Proofs.AnthropicProofs
import VynkorPlugins.Ai.Proofs.OpenAiProofs

/-!
# Streamed and buffered completions

A streamed completion gives what the buffered one gives, as long as nothing that an ignored block sends
is taken for a part of another one.
-/

namespace Ai

open Streaming

theorem feedAll_anthropic (serde : Serde) (s : AnthropicStream) (data : List String) :
    feedAll (StreamParser.feed serde) (.anthropic s) data =
      (feedAll (AnthropicStream.feed serde) s data).map fun r => (.anthropic r.1, r.2) :=
  feedAll_map StreamParser.anthropic (fun _ _ => rfl) s data

theorem feedAll_openAi (serde : Serde) (s : OpenAiStream) (data : List String) :
    feedAll (StreamParser.feed serde) (.openAi s) data =
      (feedAll (OpenAiStream.feed serde) s data).map fun r => (.openAi r.1, r.2) :=
  feedAll_map StreamParser.openAi (fun _ _ => rfl) s data

theorem streams_anthropic_iff {serde : Serde} {data : List String} {r : ChatResult} :
    Streams serde .anthropic data r ↔ ∃ s deltas,
      feedAll (AnthropicStream.feed serde) {} data = .ok (s, deltas) ∧
        joined deltas = r.content ∧ s.finish serde = .ok r := by
  unfold Streams
  rw [show Provider.anthropic.streamParser = .anthropic {} from rfl, feedAll_anthropic]
  constructor
  · rintro ⟨parser, deltas, hfeed, hjoined, hfinish⟩
    cases hr : feedAll (AnthropicStream.feed serde) {} data with
    | error e =>
      rw [hr] at hfeed
      cases hfeed
    | ok r =>
      rw [hr] at hfeed
      obtain ⟨rfl, rfl⟩ := Prod.mk.inj (Except.ok.inj hfeed)
      exact ⟨r.1, r.2, rfl, hjoined, hfinish⟩
  · rintro ⟨s, deltas, hfeed, hjoined, hfinish⟩
    rw [hfeed]
    exact ⟨.anthropic s, deltas, rfl, hjoined, hfinish⟩

/-- A streamed completion equals the buffered one exactly when nothing that a block which is not
    surfaced sends is taken for a part of another block. -/
theorem streamed_equals_buffered_iff (serde : Serde) (t : Transcript) {body : ByteArray}
    {data : List String} {r : ChatResult} (hr : t.provider.parseResponse serde body = .ok r)
    (hencodes : t.Encodes serde body data) :
    Streams serde t.provider data r ↔ t.Clean serde := by
  cases t with
  | anthropic t =>
    obtain ⟨hsent, fields, resp, hfields, hresp, ht⟩ := hencodes
    exact streams_anthropic_iff.trans (Anthropic.streams_iff hsent hfields hresp ht hr)
  | openAi t =>
    obtain ⟨hsent, fields, resp, choice, hfields, hresp, ht⟩ := hencodes
    obtain ⟨s, deltas, hfeed, hjoined, hfinish⟩ := OpenAiCompat.streams hsent hfields hresp ht hr
    refine ⟨fun _ => trivial, fun _ => ⟨.openAi s, deltas, ?_, hjoined, hfinish⟩⟩
    rw [show (Transcript.openAi t).provider.streamParser = .openAi {} from rfl, feedAll_openAi, hfeed]
    rfl

/-! ## A tool call and a search -/

def toolBlock : Json :=
  .obj [("id", .str "a"), ("input", .obj []), ("name", .str "now"), ("type", .str "tool_use")]

def searchBlock : Json :=
  .obj [("id", .str "b"), ("name", .str "web_search"), ("type", .str "server_tool_use")]

/-- A message of a tool call and of a block that is not surfaced. -/
def searchBody : List (String × Json) :=
  [("content", .arr [toolBlock, searchBlock]), ("stop_reason", .str "tool_use"),
   ("usage", .obj [("input_tokens", .int 3), ("output_tokens", .int 5)])]

def searchResult : ChatResult where
  content := ""
  tool_calls := [{ id := "a", name := "now", arguments_json := "\x7b\x7d" }]
  stop_reason := "tool_use"
  usage := { input_tokens := 3, output_tokens := 5 }

/-- The message on the wire, where the second block sends some pieces of JSON. -/
def searchTranscript (pieces : List String) : Anthropic.Transcript where
  input := 3
  output := 1
  parts := [{ start := toolBlock, deltas := [.json "\x7b\x7d"] },
    { start := searchBlock, deltas := pieces.map .json }]
  closing := [(some "tool_use", some 5)]

def jsonDelta (part : String) : Json :=
  .obj [("delta", .obj [("partial_json", .str part), ("type", .str "input_json_delta")]),
    ("type", .str "content_block_delta")]

def blockStart (block : Json) : Json :=
  .obj [("content_block", block), ("type", .str "content_block_start")]

/-- The events of the message, and what each one says. -/
def searchEvents (pieces : List String) : List (Anthropic.Event × Json) :=
  [(.messageStart 3 1, .obj [("message", .obj [("usage", .obj [("input_tokens", .int 3),
      ("output_tokens", .int 1)])]), ("type", .str "message_start")]),
   (.blockStart toolBlock, blockStart toolBlock),
   (.jsonDelta "\x7b\x7d", jsonDelta "\x7b\x7d"),
   (.blockStart searchBlock, blockStart searchBlock)] ++
  pieces.map (fun part => (.jsonDelta part, jsonDelta part)) ++
  [(.messageDelta (some "tool_use") (some 5),
    .obj [("delta", .obj [("stop_reason", .str "tool_use")]), ("type", .str "message_delta"),
      ("usage", .obj [("output_tokens", .int 5)])]),
   (.quiet, .obj [("type", .str "message_stop")])]

def searchData (pieces : List String) : List String :=
  (searchEvents pieces).map fun e => e.2.print

theorem searchEvents_says (pieces : List String) :
    ∀ e ∈ searchEvents pieces, e.2.normal = e.2 ∧ e.1.Says e.2 := by
  intro e he
  unfold searchEvents at he
  simp only [List.mem_append, List.mem_cons, List.not_mem_nil, or_false, List.mem_map] at he
  rcases he with ((rfl | rfl | rfl | rfl) | ⟨part, -, rfl⟩) | (rfl | rfl)
  · exact ⟨rfl, rfl, rfl, rfl⟩
  · exact ⟨rfl, rfl, rfl⟩
  · exact ⟨rfl, rfl, rfl, rfl⟩
  · exact ⟨rfl, rfl, rfl⟩
  · exact ⟨rfl, rfl, rfl, rfl⟩
  · exact ⟨rfl, rfl, rfl, rfl⟩
  · refine ⟨rfl, .inl ?_⟩
    show ∀ type ∈ Anthropic.spokenTypes, some "message_stop" ≠ some type
    decide

theorem parseResponse_of_read {serde : Serde} {body : ByteArray} {fields : List (Option Json)}
    {resp : Anthropic.Response} (hfields : serde.readStruct Anthropic.responseFields body = .ok fields)
    (hresp : Anthropic.readResponse fields = some resp) (hcontent : resp.content ≠ [])
    (htools : resp.content.filterMap Anthropic.toolOf ≠ []) :
    Anthropic.parseResponse serde body = .ok {
      content := Anthropic.joinLines (resp.content.filterMap Anthropic.textOf)
      tool_calls := resp.content.filterMap Anthropic.toolOf
      stop_reason := resp.stop_reason.getD ""
      usage := resp.usage } := by
  unfold Anthropic.parseResponse
  rw [hfields]
  dsimp only
  rw [hresp]
  dsimp only
  rw [if_neg hcontent, if_neg]
  rintro ⟨-, hempty⟩
  exact htools (List.isEmpty_iff.mp hempty)

def searchResponse : Anthropic.Response where
  content := [toolBlock, searchBlock]
  stop_reason := some "tool_use"
  usage := { input_tokens := 3, output_tokens := 5 }

theorem parse_searchBody : Anthropic.parseResponse .compact (Json.obj searchBody).toVec =
    .ok searchResult := by
  have hordered : Json.Ordered searchBody := by
    unfold Json.Ordered
    decide
  have hresp : Anthropic.readResponse (Anthropic.responseFields.map fun n =>
      ((Json.obj searchBody).get n).map Serde.compact.reread) = some searchResponse := rfl
  have htools : searchResponse.content.filterMap Anthropic.toolOf = searchResult.tool_calls := rfl
  have hread := Serde.compact.readStruct_toVec Anthropic.responseFields hordered
  refine parseResponse_of_read hread hresp (List.cons_ne_nil _ _) ?_
  rw [htools]
  exact List.cons_ne_nil _ _

theorem parseResponse_search (pieces : List String) :
    (Transcript.anthropic (searchTranscript pieces)).provider.parseResponse .compact
      (Json.obj searchBody).toVec = .ok searchResult := by
  unfold Transcript.provider Provider.parseResponse
  exact parse_searchBody

theorem reads_braces :
    Anthropic.Reads .compact (Anthropic.jsons [.json "\x7b\x7d"]) (.obj []) := by
  refine Anthropic.reads_iff.mpr ?_
  decide

theorem search_encodes (pieces : List String) :
    (Transcript.anthropic (searchTranscript pieces)).Encodes .compact (Json.obj searchBody).toVec
      (searchData pieces) := by
  have hordered : Json.Ordered searchBody := by
    unfold Json.Ordered
    decide
  refine ⟨⟨(searchEvents pieces).map Prod.fst, ?_, ?_⟩, _, _,
    Serde.compact.readStruct_toVec Anthropic.responseFields hordered, rfl, ?_, rfl, rfl, rfl⟩
  · have hpieces : (pieces.map fun part => Anthropic.Event.jsonDelta part).filter Anthropic.Event.loud =
        (pieces.map .json).map Anthropic.Delta.event := by
      rw [List.map_map, List.filter_eq_self.mpr]
      · rfl
      · intro e he
        obtain ⟨part, -, rfl⟩ := List.mem_map.mp he
        rfl
    have hmap : (searchEvents pieces).map Prod.fst = [Anthropic.Event.messageStart 3 1,
        Anthropic.Event.blockStart toolBlock, Anthropic.Event.jsonDelta "\x7b\x7d",
        Anthropic.Event.blockStart searchBlock] ++
        (pieces.map fun part => Anthropic.Event.jsonDelta part) ++
        [Anthropic.Event.messageDelta (some "tool_use") (some 5), Anthropic.Event.quiet] := by
      unfold searchEvents
      rw [List.map_append, List.map_append, List.map_map]
      rfl
    rw [hmap, List.filter_append, List.filter_append, hpieces]
    simp only [searchTranscript, Anthropic.Transcript.events, Anthropic.Part.events,
      List.flatMap_cons, List.flatMap_nil, List.append_nil]
    rfl
  · unfold searchData
    rw [List.forall₂_map_left_iff, List.forall₂_map_right_iff, List.forall₂_same]
    intro e he
    obtain ⟨hnormal, hsays⟩ := searchEvents_says pieces e he
    refine ⟨e.2, ?_, hsays⟩
    rw [Serde.fromStr_print]
    exact congrArg Except.ok hnormal
  · refine .cons ⟨rfl, nofun, fun _ => ⟨?_, rfl, rfl, [], rfl, ?_⟩⟩ (.cons ⟨rfl, nofun, nofun⟩ .nil)
    · intro d hd
      exact ⟨_, List.mem_singleton.mp hd⟩
    · exact reads_braces

/-- Without pieces of the search, the message is streamed as it is buffered. -/
theorem streamed_equals_buffered_sample :
    Streams .compact .anthropic (searchData []) searchResult := by
  refine (streamed_equals_buffered_iff .compact (.anthropic (searchTranscript []))
    (parseResponse_search []) (search_encodes [])).mpr ⟨nofun, fun _ input hreads => ?_, nofun, nofun, trivial⟩
  show Anthropic.Reads _ (_ ++ "") input
  rwa [String.append_empty]

/-- A piece of the search is taken for a part of the input of the tool. -/
theorem search_spoils_the_tool_call : ∃ t : Transcript, ∃ body data r,
    t.provider.parseResponse .compact body = .ok r ∧ t.Encodes .compact body data ∧
      ¬ Streams .compact t.provider data r := by
  refine ⟨.anthropic (searchTranscript ["1"]), _, _, _, parseResponse_search ["1"], search_encodes ["1"], ?_⟩
  obtain ⟨hsent, fields, resp, hfields, hresp, ht⟩ := search_encodes ["1"]
  show ¬ Streams .compact .anthropic _ _
  rw [streams_anthropic_iff, Anthropic.streams_iff hsent hfields hresp ht parse_searchBody]
  rintro ⟨-, htool, -⟩
  have hspoiled := htool rfl (.obj []) reads_braces
  have hraw := Anthropic.reads_iff.mp hspoiled
  revert hraw
  decide

end Ai
