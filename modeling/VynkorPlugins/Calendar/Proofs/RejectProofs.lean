import VynkorPlugins.Calendar.Proofs.RescheduleProofs

/-!
# Imports that are rejected

A payload is decoded and parsed before the first call. The cap is met between two writes, so what comes
before it in the payload has been stored.
-/

namespace Calendar

open Async

variable {w w' w₀ w₁ : World} {now start_ms : Int64} {fuel : Nat} {event : ParsedEvent} {s s' : Import}
  {parsed : List ParsedEvent} {doc : EventDoc}

theorem World.OnlyImported.refl (w : World) : w.OnlyImported fuel now parsed w :=
  fun _ => .inl rfl

theorem World.Placed.later {uid id : String} (h : w.Placed w₁ uid id doc)
    (hnext : w₁.next_id ≤ w'.next_id) : w.Placed w' uid id doc := by
  rcases h with ⟨n, hlt, hle, rfl⟩ | h
  · exact .inl ⟨n, hlt, Nat.le_trans hle hnext, rfl⟩
  · exact .inr h

theorem World.OnlyImported.congr (h : w.OnlyImported fuel now parsed w₁) (hdocs : w'.docs = w₁.docs)
    (hnext : w₁.next_id ≤ w'.next_id) : w.OnlyImported fuel now parsed w' := by
  intro id
  rw [hdocs]
  rcases h id with hsame | ⟨event, hevent, start, hstart, doc, hdoc, hshows, hplaced⟩
  · exact .inl hsame
  · exact .inr ⟨event, hevent, start, hstart, doc, hdoc, hshows, hplaced.later hnext⟩

/-- An occurrence is written. -/
theorem World.OnlyImported.put {done : Bool} (h : w.OnlyImported fuel now parsed w₁)
    (hput : Put doc done w₁ w') (hevent : event ∈ parsed) (hstart : start_ms ∈ event.starts fuel now)
    (hshows : doc.Shows event start_ms) (hplaced : w.Placed w' event.uid doc.id doc) :
    w.OnlyImported fuel now parsed w' := by
  have hnext : w₁.next_id ≤ w'.next_id := hput.next_id.ge
  intro id
  rw [hput.docs]
  split_ifs with hdone
  · obtain ⟨-, rfl⟩ := hdone
    exact .inr ⟨event, hevent, start_ms, hstart, doc, rfl, hshows, hplaced⟩
  · rcases h id with hsame | ⟨event, hevent, start, hstart, doc, hdoc, hshows, hplaced⟩
    · exact .inl hsame
    · exact .inr ⟨event, hevent, start, hstart, doc, hdoc, hshows, hplaced.later hnext⟩

/-- The document that an event is known by stands where one with its UID stood. -/
theorem World.OnlyImported.known (h : w.OnlyImported fuel now parsed w₁)
    (hdoc : w₁.docs[doc.id]? = some doc) (hics : doc.ics_uid = some event.uid) (huid : event.uid ≠ "")
    (updated_at_ms : Int64) (hnext : w₁.next_id ≤ w'.next_id) :
    w.Placed w' event.uid doc.id (event.update doc start_ms updated_at_ms) := by
  rcases h doc.id with hsame | ⟨event', -, -, -, doc', hdoc', -, hplaced⟩
  · exact .inr ⟨huid, hics, doc, hsame.symm.trans hdoc, hics⟩
  · obtain rfl := Option.some.inj (hdoc.symm.trans hdoc')
    rcases hplaced with ⟨n, hlt, hle, hid⟩ | ⟨-, hics', old, hold, holdics⟩
    · exact .inl ⟨n, hlt, Nat.le_trans hle hnext, hid⟩
    · have hsame : some event.uid = some event'.uid := hics.symm.trans hics'
      exact .inr ⟨huid, hics, old, hold, holdics.trans hsame.symm⟩

/-- An import that goes on, and what it has changed. -/
structure Framed (fuel : Nat) (now : Int64) (parsed : List ParsedEvent) (w₀ : World) (s : Import)
    (w : World) : Prop where
  linked : Linked [] s w
  later : w₀.next_id ≤ w.next_id
  only : w₀.OnlyImported fuel now parsed w

theorem frame_import_occurrence {r : Except String Import} (h : Framed fuel now parsed w₀ s w)
    (hevent : event ∈ parsed) (hstart : start_ms ∈ event.starts fuel now)
    (hexec : Exec Alone w (import_occurrence now event start_ms s) r w') :
    w₀.OnlyImported fuel now parsed w' ∧ ∀ s', r = .ok s' → Framed fuel now parsed w₀ s' w' := by
  have hlater := h.later
  cases exec_import_occurrence hexec with
  | failed hdocs hnext _ hr =>
    exact ⟨h.only.congr hdocs hnext, fun s' hs' => absurd hs' (hr s')⟩
  | @updated doc updated_at_ms done hknown hput hr =>
    have huid : event.uid ≠ "" := by
      intro huid
      rw [Import.known, if_pos huid] at hknown
      cases hknown
    rw [known_eq huid] at hknown
    obtain ⟨hdoc, hics⟩ := h.linked.stored event.uid doc hknown
    have honly := h.only.put hput hevent hstart ⟨rfl, rfl, rfl, rfl, rfl, rfl⟩
      (h.only.known hdoc hics huid updated_at_ms hput.next_id.ge)
    refine ⟨honly, fun s' hs' => ?_⟩
    obtain ⟨rfl, rfl⟩ := hr s' hs'
    exact ⟨h.linked.updated hknown hput, hput.next_id ▸ h.later, honly⟩
  | @added done hknown hput hr =>
    have hnext : w'.next_id = w.next_id + 1 := hput.next_id
    have hsame : w₀.OnlyImported fuel now parsed { w with next_id := w.next_id + 1 } :=
      h.only.congr rfl (Nat.le_succ _)
    have honly := hsame.put hput hevent hstart ⟨rfl, rfl, rfl, rfl, rfl, rfl⟩
      (.inl ⟨w.next_id + 1, by omega, hnext.ge, rfl⟩)
    refine ⟨honly, fun s' hs' => ?_⟩
    obtain ⟨rfl, rfl⟩ := hr s' hs'
    refine ⟨?_, by omega, honly⟩
    by_cases huid : event.uid = ""
    · exact h.linked.added_unnamed huid hput
    · rw [known_eq huid] at hknown
      exact h.linked.added huid hknown hput

theorem frame_import_occurrences {starts : List Int64} {r : Except String Import}
    (h : Framed fuel now parsed w₀ s w) (hevent : event ∈ parsed)
    (hstarts : ∀ start_ms ∈ starts, start_ms ∈ event.starts fuel now)
    (hexec : Exec Alone w (import_occurrences now event starts s) r w') :
    w₀.OnlyImported fuel now parsed w' ∧ ∀ s', r = .ok s' → Framed fuel now parsed w₀ s' w' := by
  induction starts generalizing s w with
  | nil =>
    obtain ⟨rfl, rfl⟩ := exec_done_iff.mp hexec
    refine ⟨h.only, fun s' hs' => ?_⟩
    obtain rfl := Except.ok.inj hs'
    exact h
  | cons start starts ih =>
    obtain ⟨r₁, w₁, hone, hrest⟩ := exec_bind_iff.mp hexec
    obtain ⟨honly, hon⟩ := frame_import_occurrence h hevent (hstarts start List.mem_cons_self) hone
    rcases r₁ with e | s₁
    · obtain ⟨rfl, rfl⟩ := exec_done_iff.mp hrest
      exact ⟨honly, fun s' h => nomatch h⟩
    · exact ih (hon s₁ rfl) (fun start' h => hstarts start' (List.mem_cons_of_mem _ h)) hrest

theorem frame_import_events {events : List ParsedEvent} {r : Option (Except String Import)}
    (h : Framed fuel now parsed w₀ s w) (hevents : ∀ event ∈ events, event ∈ parsed)
    (hexec : Exec Alone w (import_events fuel now events s) r w') :
    w₀.OnlyImported fuel now parsed w' := by
  induction events generalizing s w with
  | nil =>
    obtain ⟨-, rfl⟩ := exec_done_iff.mp hexec
    exact h.only
  | cons event events ih =>
    unfold import_events at hexec
    cases hstarts : occurrences fuel event (window_start now) (window_end now) with
    | none =>
      rw [hstarts] at hexec
      obtain ⟨-, rfl⟩ := exec_done_iff.mp hexec
      exact h.only
    | some starts =>
      rw [hstarts] at hexec
      have hwindow : event.starts fuel now = starts := by
        unfold ParsedEvent.starts
        rw [hstarts]
        rfl
      obtain ⟨r₁, w₁, hfirst, hrest⟩ := exec_bind_iff.mp hexec
      obtain ⟨honly, hon⟩ := frame_import_occurrences h (hevents event List.mem_cons_self)
        (fun start hstart => hwindow ▸ hstart) hfirst
      rcases r₁ with e | s₁
      · obtain ⟨-, rfl⟩ := exec_done_iff.mp hrest
        exact honly
      · exact ih (hon s₁ rfl) (fun e he => hevents e (List.mem_cons_of_mem _ he)) hrest

theorem frame_import_at {r : Option (Except String ActionResult)} (hcounted : w.Counted)
    (hexec : Exec Alone w (import_at fuel parsed now) r w') : w.OnlyImported fuel now parsed w' := by
  unfold import_at at hexec
  obtain ⟨existing, w₁, hlist, hrest⟩ := exec_bind_iff.mp hexec
  obtain ⟨hdocs, hnext, hexisting⟩ := exec_list hlist
  have honly : w.OnlyImported fuel now parsed w₁ := (World.OnlyImported.refl w).congr hdocs hnext.ge
  rcases existing with e | existing
  · obtain ⟨-, rfl⟩ := exec_done_iff.mp hrest
    exact honly
  obtain ⟨r₂, w₂, hevents, hend⟩ := exec_bind_iff.mp hrest
  obtain rfl : w' = w₂ := by
    rcases r₂ with _ | (e | s)
    · exact (exec_done_iff.mp hend).2
    · exact (exec_done_iff.mp hend).2
    · exact (exec_done_iff.mp hend).2
  have hcounted₁ : w₁.Counted := by
    unfold World.Counted
    rw [hdocs, hnext]
    exact hcounted
  have hlinked : Linked [] (.start existing) w₁ := by
    refine linked_start hcounted₁ (fun _ h => nomatch h) fun doc => ?_
    rw [hdocs]
    exact hexisting existing rfl doc
  exact frame_import_events ⟨hlinked, hnext.ge, honly⟩ (fun _ h => h) hevents

/-- A malformed payload leaves the store as it is, and any other import changes only what tells of its
    occurrences, also where it ends at the cap. -/
theorem rejected_import_frame {c : Crates} {ics_base64 : String}
    {result : Option (Except String ActionResult)} (hcounted : w.Counted)
    (h : Exec Alone w (handle_action c fuel (.calendar_ics_import ics_base64)) result w') :
    (∀ e, Malformed c ics_base64 e → result = some (.error e) ∧ w'.docs = w.docs) ∧
      ((¬ ∃ e, Malformed c ics_base64 e) → ∃ parsed now, decode_ics c ics_base64 = .ok parsed ∧
        w.OnlyImported fuel now parsed w') := by
  unfold handle_action at h
  cases hreq : parse_request c (.calendar_ics_import ics_base64) with
  | error e =>
    rw [hreq] at h
    obtain ⟨rfl, rfl⟩ := exec_done_iff.mp h
    refine ⟨fun e' he' => ?_, fun hno => absurd ⟨e, .inl hreq⟩ hno⟩
    rcases he' with he' | ⟨he', -⟩
    · obtain rfl := Except.error.inj (hreq.symm.trans he')
      exact ⟨rfl, rfl⟩
    · rw [hreq] at he'
      cases he'
  | ok req =>
    have himport : req = .Import ics_base64 := by
      unfold parse_request at hreq
      obtain ⟨_, -, hreq⟩ := Rust.bind_eq_ok.mp hreq
      exact (Except.ok.inj hreq).symm
    subst himport
    rw [hreq] at h
    change Exec Alone w (import_ics c fuel ics_base64) result w' at h
    unfold import_ics at h
    cases hdecode : decode_ics c ics_base64 with
    | error e =>
      rw [hdecode] at h
      obtain ⟨rfl, rfl⟩ := exec_done_iff.mp h
      refine ⟨fun e' he' => ?_, fun hno => absurd ⟨e, .inr ⟨hreq, hdecode⟩⟩ hno⟩
      rcases he' with he' | ⟨-, he'⟩
      · rw [hreq] at he'
        cases he'
      · obtain rfl := Except.error.inj (hdecode.symm.trans he')
        exact ⟨rfl, rfl⟩
    | ok parsed =>
      rw [hdecode] at h
      obtain ⟨now, w₁, ⟨clock, fate, hnow⟩, h⟩ := exec_call_iff.mp h
      obtain ⟨-, rfl⟩ := Prod.mk.inj hnow
      refine ⟨fun e' he' => ?_, fun _ => ⟨parsed, now, rfl, ?_⟩⟩
      · rcases he' with he' | ⟨-, he'⟩
        · rw [hreq] at he'
          cases he'
        · rw [hdecode] at he'
          cases he'
      · exact frame_import_at (w := w.turn clock fate) hcounted h

/-! ## A payload over the cap -/

/-- A meeting of every day. -/
def dailyEvent : ParsedEvent where
  title := "(untitled)"
  description := ""
  start_ms := 1755600000000
  end_ms := none
  all_day := false
  remind_before_ms := none
  uid := "a"
  rrule := some "FREQ=DAILY"

/-- The meeting six times over. -/
def everyDay : List Char :=
  (List.replicate 6
    "BEGIN:VEVENT\r\nUID:a\r\nDTSTART:20250819T104000Z\r\nRRULE:FREQ=DAILY\r\nEND:VEVENT\r\n".toList).flatten

theorem decode_everyDay :
    decode_ics (decoding (String.ofList everyDay)) "" = .ok (List.replicate 6 dailyEvent) := by
  have hparse : ((parse_ics everyDay).toOption = some (List.replicate 6 dailyEvent)) := by
    decide
  refine decode_ics_decoding ?_
  rw [String.toList_ofList]
  cases hevents : parse_ics everyDay with
  | error e =>
    rw [hevents] at hparse
    cases hparse
  | ok events =>
    rw [hevents] at hparse
    obtain rfl := Option.some.inj hparse
    rfl

def importEveryDay : Option (Except String ActionResult) × World :=
  run (World.serveOk 1755600000000)
    (handle_action (decoding (String.ofList everyDay)) 100 (.calendar_ics_import "")) .empty

theorem exec_importEveryDay :
    Exec Alone .empty (handle_action (decoding (String.ofList everyDay)) 100 (.calendar_ics_import ""))
      importEveryDay.1 importEveryDay.2 :=
  exec_serveOk 1755600000000 _ .empty

theorem rejected_import_frame_sample : ∃ parsed now,
    decode_ics (decoding (String.ofList everyDay)) "" = .ok parsed ∧
      World.OnlyImported 100 now parsed .empty importEveryDay.2 := by
  refine (rejected_import_frame counted_empty exec_importEveryDay).2 ?_
  rintro ⟨e, he | ⟨-, he⟩⟩
  · cases he
  · rw [decode_everyDay] at he
    cases he

theorem importEveryDay_eq : importEveryDay =
    run (World.serveOk 1755600000000) (import_at 100 (List.replicate 6 dailyEvent) 1755600000000)
      (World.empty.turn 1755600000000 .ok) := by
  unfold importEveryDay
  rw [handle_import rfl, run_import_ics decode_everyDay]
  rfl

/-! ## An import of one meeting over and over -/

/-- The import knows the event, whose document is stored. -/
structure Import.Knows (s : Import) (event : ParsedEvent) (id : String) (w : World) : Prop where
  known : ∃ doc, s.known event = some doc ∧ doc.id = id
  stored : w.docs[id]?.isSome = true

/-- A known event is written to its document. -/
theorem run_import_occurrence (clock now : Int64) {event : ParsedEvent} {id : String} {s : Import}
    (huid : event.uid ≠ "") (h : s.Knows event id w) (hroom : s.docs_written < MAX_IMPORT_DOCS)
    (start_ms : Int64) :
    ∃ s' w', run (World.serveOk clock) (import_occurrence now event start_ms s) w = (.ok s', w') ∧
      s'.Knows event id w' ∧ s'.docs_written = s.docs_written + 1 := by
  obtain ⟨doc, hdoc, rfl⟩ := h.known
  have hrun : run (World.serveOk clock) (import_occurrence now event start_ms s) w =
      (.ok (s.wrote event (event.update doc start_ms clock)),
        ((w.turn clock .ok).turn clock .ok).put (event.update doc start_ms clock)) := by
    rw [import_occurrence, if_neg (Nat.not_le.mpr hroom), hdoc]
    rfl
  refine ⟨_, _, hrun, ⟨⟨event.update doc start_ms clock, ?_, rfl⟩, ?_⟩, rfl⟩
  · rw [Import.known, if_neg huid]
    exact Std.ExtTreeMap.getElem?_insert_self
  · have hid : (event.update doc start_ms clock).id = doc.id := rfl
    rw [World.getElem?_put, if_pos hid]
    rfl

/-- The occurrences of a known event are written as long as there is room. -/
theorem run_import_occurrences (clock now : Int64) (starts : List Int64) {event : ParsedEvent} {id : String}
    {s : Import} (huid : event.uid ≠ "") (h : s.Knows event id w)
    (hroom : s.docs_written ≤ MAX_IMPORT_DOCS) :
    ∃ r w', run (World.serveOk clock) (import_occurrences now event starts s) w = (r, w') ∧
      w'.docs[id]?.isSome = true ∧
      if s.docs_written + starts.length ≤ MAX_IMPORT_DOCS then
        ∃ s', r = .ok s' ∧ s'.Knows event id w' ∧ s'.docs_written = s.docs_written + starts.length
      else r = .error "import exceeds 500 documents — narrow the calendar or the window" := by
  induction starts generalizing s w with
  | nil =>
    refine ⟨.ok s, w, rfl, h.stored, ?_⟩
    rw [List.length_nil, Nat.add_zero, if_pos hroom]
    exact ⟨s, rfl, h, rfl⟩
  | cons start_ms starts ih =>
    rw [import_occurrences, run_bind]
    rcases Nat.lt_or_ge s.docs_written MAX_IMPORT_DOCS with hlt | hfull
    · obtain ⟨s₁, w₁, hrun, h₁, hcount⟩ := run_import_occurrence clock now huid h hlt start_ms
      obtain ⟨r, w', hrest, hstored, hr⟩ := ih h₁ (by omega)
      rw [hrun]
      refine ⟨r, w', hrest, hstored, ?_⟩
      have hsum : s₁.docs_written + starts.length = s.docs_written + (start_ms :: starts).length := by
        rw [hcount, List.length_cons]
        omega
      rw [hsum] at hr
      exact hr
    · have hrun : run (World.serveOk clock) (import_occurrence now event start_ms s) w =
          (.error "import exceeds 500 documents — narrow the calendar or the window", w) := by
        rw [import_occurrence, if_pos hfull]
        rfl
      rw [hrun]
      refine ⟨_, w, rfl, h.stored, ?_⟩
      rw [List.length_cons, if_neg (by omega)]

/-- A known event that is imported too often. -/
theorem run_import_events (clock now : Int64) (n : Nat) {event : ParsedEvent} {id : String} {s : Import}
    {fuel : Nat} {starts : List Int64} (huid : event.uid ≠ "") (h : s.Knows event id w)
    (hstarts : occurrences fuel event (window_start now) (window_end now) = some starts)
    (hroom : s.docs_written ≤ MAX_IMPORT_DOCS)
    (hover : MAX_IMPORT_DOCS < s.docs_written + n * starts.length) :
    ∃ w', run (World.serveOk clock) (import_events fuel now (List.replicate n event) s) w =
        (some (.error "import exceeds 500 documents — narrow the calendar or the window"), w') ∧
      w'.docs[id]?.isSome = true := by
  induction n generalizing s w with
  | zero => omega
  | succ n ih =>
    obtain ⟨r, w₁, hrun, hstored, hr⟩ :=
      run_import_occurrences clock now starts huid h hroom
    rw [List.replicate_succ, import_events, hstarts]
    dsimp only
    rw [run_bind, hrun]
    split_ifs at hr with hfits
    · obtain ⟨s₁, rfl, h₁, hcount⟩ := hr
      have hover₁ : MAX_IMPORT_DOCS < s₁.docs_written + n * starts.length := by
        rw [Nat.succ_mul] at hover
        omega
      exact ih h₁ (by omega) hover₁
    · subst hr
      exact ⟨w₁, rfl, hstored⟩

theorem run_first_occurrence (start_ms : Int64) : ∃ s w,
    run (World.serveOk 1755600000000)
        (import_occurrence 1755600000000 dailyEvent start_ms (.start []))
        (World.empty.turn 1755600000000 .ok) = (.ok s, w) ∧
      s.Knows dailyEvent "1" w ∧ s.docs_written = 1 := by
  have hknown : (Import.start []).known dailyEvent = none := by
    rw [Import.known, if_neg (by decide)]
    exact Std.ExtTreeMap.getElem?_empty
  have hroom : ¬ MAX_IMPORT_DOCS ≤ (Import.start []).docs_written := by decide
  have hrun : run (World.serveOk 1755600000000)
        (import_occurrence 1755600000000 dailyEvent start_ms (.start []))
        (World.empty.turn 1755600000000 .ok) =
      (.ok ((Import.start []).added dailyEvent (dailyEvent.newDoc "1" start_ms 1755600000000)),
        ({ World.empty with next_id := 1, clock := 1755600000000 }).put
          (dailyEvent.newDoc "1" start_ms 1755600000000)) := by
    rw [import_occurrence, if_neg hroom, hknown]
    rfl
  have hid : (dailyEvent.newDoc "1" start_ms 1755600000000).id = "1" := rfl
  refine ⟨_, _, hrun, ⟨⟨dailyEvent.newDoc "1" start_ms 1755600000000, ?_, hid⟩, ?_⟩, rfl⟩
  · rw [Import.known, if_neg (by decide)]
    exact Std.ExtTreeMap.getElem?_insert_self
  · rw [World.getElem?_put, if_pos hid]
    rfl

/-- The import is refused for its size and has stored an event. -/
theorem import_over_cap_leaves_events :
    importEveryDay.1 = some (.error
      "import exceeds 500 documents — narrow the calendar or the window") ∧
    World.empty.docs["1"]? = none ∧ importEveryDay.2.docs["1"]?.isSome = true := by
  have hempty : World.empty.docs["1"]? = none := by
    show (∅ : Table String EventDoc)["1"]? = none
    simp
  have hcount : (occurrences 100 dailyEvent (window_start 1755600000000)
      (window_end 1755600000000)).map List.length = some 91 := by
    decide
  obtain ⟨starts, hstarts, hlength⟩ := Option.map_eq_some_iff.mp hcount
  obtain ⟨start_ms, starts, rfl⟩ := List.exists_cons_of_length_eq_add_one hlength
  rw [List.length_cons] at hlength
  have hmax : MAX_IMPORT_DOCS = 500 := rfl
  -- The first occurrence is stored as a new document, which the others are written to.
  obtain ⟨s₁, w₁, hfirst, h₁, hwritten₁⟩ := run_first_occurrence start_ms
  obtain ⟨r, w₂, hrest, -, hr⟩ := run_import_occurrences 1755600000000 1755600000000 starts (by decide) h₁
    (by omega)
  rw [hwritten₁, if_pos (by omega)] at hr
  obtain ⟨s₂, rfl, h₂, hwritten₂⟩ := hr
  obtain ⟨w₃, hothers, hstored⟩ := run_import_events 1755600000000 1755600000000 5 (by decide) h₂ hstarts
    (by omega) (by rw [List.length_cons]; omega)
  have hrun : importEveryDay =
      (some (.error "import exceeds 500 documents — narrow the calendar or the window"), w₃) := by
    have hlist : run (World.serveOk 1755600000000) Db.list (World.empty.turn 1755600000000 .ok) =
        (.ok [], World.empty.turn 1755600000000 .ok) := by
      have hkeys : World.empty.docs.keys = [] := by
        exact Std.ExtTreeMap.keys_eq_nil_iff.mpr rfl
      have hserve : World.serveOk 1755600000000 .db_keys (World.empty.turn 1755600000000 .ok) =
          (.ok [], World.empty.turn 1755600000000 .ok) := by
        show (Except.ok World.empty.docs.keys, World.empty.turn 1755600000000 .ok) = _
        rw [hkeys]
      unfold Db.list
      rw [await, perform_bind, run, hserve]
      rfl
    have hevents : run (World.serveOk 1755600000000)
          (import_occurrences 1755600000000 dailyEvent (start_ms :: starts) (.start []))
          (World.empty.turn 1755600000000 .ok) = (.ok s₂, w₂) := by
      rw [import_occurrences, run_bind, hfirst]
      exact hrest
    rw [importEveryDay_eq, import_at, run_bind, hlist]
    dsimp only
    rw [run_bind, List.replicate_succ, import_events, hstarts]
    dsimp only
    rw [run_bind, hevents]
    dsimp only
    rw [hothers]
    rfl
  rw [hrun]
  exact ⟨rfl, hempty, hstored⟩

end Calendar
