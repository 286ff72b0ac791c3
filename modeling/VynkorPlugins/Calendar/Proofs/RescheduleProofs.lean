import VynkorPlugins.Calendar.Imports
import VynkorPlugins.Calendar.Proofs.ImportProofs

/-!
# Rescheduling and reminders

An update compares each member of the time shape with the stored one. An import compares only the start
and the title of an occurrence with those of the known document.
-/

namespace Calendar

open Async

variable {g g' g₁ : Logged} {now start_ms : Int64} {fuel : Nat} {event : ParsedEvent} {s s' : Import}
  {doc doc' doc₀ : EventDoc} {id : String} {rs : List (ParsedEvent × Int64)}

theorem Rearmed.refl (doc : EventDoc) : Rearmed doc doc :=
  ⟨fun _ h hne => absurd h hne, fun _ _ _ _ _ => rfl⟩

/-! ## Updates -/

/-- What a patch does not change is as it was. -/
theorem set_of_not_changes {α : Type} [DecidableEq α] {patched : Option α} {stored : α}
    (h : EventPatch.changes patched stored = false) : EventPatch.set patched stored = stored := by
  unfold EventPatch.changes at h
  unfold EventPatch.set
  cases patched with
  | none => rfl
  | some v =>
    have hsame : stored = v := by simpa using h
    exact hsame.symm

theorem changes_of_set_ne {α : Type} [DecidableEq α] {patched : Option α} {stored : α}
    (h : EventPatch.set patched stored ≠ stored) : EventPatch.changes patched stored = true := by
  cases hc : EventPatch.changes patched stored with
  | true => rfl
  | false => exact absurd (set_of_not_changes hc) h

theorem changes_eq_false {α : Type} [DecidableEq α] {patched : Option α} {stored : α}
    (h : EventPatch.set patched stored = stored) : EventPatch.changes patched stored = false := by
  unfold EventPatch.changes
  unfold EventPatch.set at h
  cases patched with
  | none => rfl
  | some v =>
    have hsame : v = stored := h
    simp [hsame]

theorem rearmed_update {patch : EventPatch} {updated : EventDoc} (h : patch.apply doc = .ok updated)
    (updated_at_ms : Int64) : Rearmed doc { updated with updated_at_ms } := by
  have heq : updated =
      { patch.merge doc with reminder_fired := !patch.times_changed doc && doc.reminder_fired } := by
    unfold EventPatch.apply at h
    obtain ⟨_, -, h⟩ := Rust.bind_eq_ok.mp h
    exact (Except.ok.inj h).symm
  subst heq
  constructor
  · intro t ht hne
    show (!patch.times_changed doc && doc.reminder_fired) = false
    have hchanged : patch.times_changed doc = true := by
      by_cases hstart : EventPatch.set patch.start_ms doc.start_ms = doc.start_ms
      · have hlead : EventPatch.set (patch.remind_before_ms.map some) doc.remind_before_ms ≠
            doc.remind_before_ms := by
          intro hlead
          refine hne ?_
          rw [← ht]
          unfold EventDoc.remind_at
          show _ = (EventPatch.set (patch.remind_before_ms.map some) doc.remind_before_ms).map _
          rw [hlead]
          show _ = doc.remind_before_ms.map fun lead =>
            (EventPatch.set patch.start_ms doc.start_ms).toInt - lead.toInt
          rw [hstart]
        unfold EventPatch.times_changed
        rw [changes_of_set_ne hlead, Bool.or_true, Bool.true_or]
      · unfold EventPatch.times_changed
        rw [changes_of_set_ne hstart, Bool.true_or, Bool.true_or, Bool.true_or]
    rw [hchanged]
    rfl
  · intro hstart hend hlead hrrule _
    show (!patch.times_changed doc && doc.reminder_fired) = doc.reminder_fired
    have hsame : patch.times_changed doc = false := by
      unfold EventPatch.times_changed
      rw [changes_eq_false hstart, changes_eq_false hend, changes_eq_false hlead,
        changes_eq_false hrrule]
      rfl
    rw [hsame]
    rfl

/-! ## Occurrences in the place of an event -/

/-- The document after some occurrences, but for its stamp. -/
def rewrite (doc : EventDoc) (rs : List (ParsedEvent × Int64)) : EventDoc :=
  rs.foldl (fun doc r => r.1.update doc r.2 0) doc

theorem rewrite_concat (doc : EventDoc) (rs : List (ParsedEvent × Int64)) (r : ParsedEvent × Int64) :
    rewrite doc (rs ++ [r]) = r.1.update (rewrite doc rs) r.2 0 := by
  unfold rewrite
  rw [List.foldl_append]
  rfl

/-- The flag is kept just where every occurrence has the start and the title of the event. -/
theorem fired_rewrite (doc : EventDoc) (rs : List (ParsedEvent × Int64)) :
    (rewrite doc rs).reminder_fired =
      (decide (∀ r ∈ rs, SamePlace doc r) && doc.reminder_fired) ∧
    ((∀ r ∈ rs, SamePlace doc r) →
      (rewrite doc rs).start_ms = doc.start_ms ∧ (rewrite doc rs).title = doc.title) := by
  induction rs using List.reverseRecOn with
  | nil => exact ⟨by simp [rewrite], fun _ => ⟨rfl, rfl⟩⟩
  | append_singleton rs r ih =>
    obtain ⟨hfired, hsame⟩ := ih
    have hall : (∀ r' ∈ rs ++ [r], SamePlace doc r') ↔ (∀ r' ∈ rs, SamePlace doc r') ∧ SamePlace doc r := by
      rw [List.forall_mem_append, List.forall_mem_singleton]
    rw [rewrite_concat]
    refine ⟨?_, fun h => ?_⟩
    · show (if _ then false else (rewrite doc rs).reminder_fired) = _
      by_cases hrs : ∀ r' ∈ rs, SamePlace doc r'
      · obtain ⟨hstart, htitle⟩ := hsame hrs
        rw [hstart, htitle, hfired, decide_eq_true hrs, Bool.true_and]
        by_cases hr : SamePlace doc r
        · have hno : ¬ (doc.start_ms ≠ r.2 ∨ doc.title ≠ r.1.title) := by
            rintro (h | h)
            · exact h hr.1.symm
            · exact h hr.2.symm
          rw [if_neg hno, decide_eq_true (hall.mpr ⟨hrs, hr⟩), Bool.true_and]
        · have hyes : doc.start_ms ≠ r.2 ∨ doc.title ≠ r.1.title := by
            by_contra hno
            rw [not_or, not_not, not_not] at hno
            exact hr ⟨hno.1.symm, hno.2.symm⟩
          rw [if_pos hyes, decide_eq_false fun h => hr (hall.mp h).2, Bool.false_and]
      · rw [hfired, decide_eq_false hrs, decide_eq_false fun h => hrs (hall.mp h).1, Bool.false_and,
          ite_self]
    · obtain ⟨hstart, htitle⟩ := (hall.mp h).2
      exact ⟨hstart, htitle⟩

/-- What the last occurrence leaves. -/
theorem rewrite_getLast (doc : EventDoc) {last : ParsedEvent × Int64} (h : rs.getLast? = some last) :
    (rewrite doc rs).start_ms = last.2 ∧ (rewrite doc rs).title = last.1.title ∧
      (rewrite doc rs).end_ms = last.1.endOf last.2 ∧
      (rewrite doc rs).remind_before_ms = last.1.remind_before_ms := by
  obtain ⟨init, rfl⟩ := List.getLast?_eq_some_iff.mp h
  rw [rewrite_concat]
  exact ⟨rfl, rfl, rfl, rfl⟩

theorem rrule_rewrite (doc : EventDoc) (rs : List (ParsedEvent × Int64)) :
    (rewrite doc rs).rrule = doc.rrule := by
  induction rs using List.reverseRecOn with
  | nil => rfl
  | append_singleton rs r ih =>
    rw [rewrite_concat]
    exact ih

theorem Rearmed.unstamped (h : doc'.unstamped = (rewrite doc rs).unstamped) :
    Rearmed doc doc' ↔ Rearmed doc (rewrite doc rs) := by
  have hmembers : doc' = { rewrite doc rs with updated_at_ms := doc'.updated_at_ms } := by
    have hid := congrArg EventDoc.id h
    cases doc'
    simp only [EventDoc.unstamped, EventDoc.mk.injEq] at h ⊢
    tauto
  rw [hmembers]
  exact ⟨fun h => ⟨h.moved, h.kept⟩, fun h => ⟨h.moved, h.kept⟩⟩

/-- The lead decides whether an event in the same place is reminded of at another instant. -/
theorem remind_at_moved_iff (hstart : doc'.start_ms = doc.start_ms) :
    (∃ t, doc'.remind_at = some t ∧ doc.remind_at ≠ some t) ↔
      ¬ (doc'.remind_before_ms = none ∨ doc'.remind_before_ms = doc.remind_before_ms) := by
  unfold EventDoc.remind_at
  rw [hstart]
  cases hlead' : doc'.remind_before_ms with
  | none => simp
  | some lead' =>
    cases hlead : doc.remind_before_ms with
    | none => simp
    | some lead =>
      have hinj : doc.start_ms.toInt - lead.toInt = doc.start_ms.toInt - lead'.toInt ↔ lead' = lead := by
        rw [← Int64.toInt_inj]
        omega
      simp [hinj]

theorem rearmed_rewrite_iff (doc : EventDoc) (rs : List (ParsedEvent × Int64)) :
    Rearmed doc (rewrite doc rs) ↔ Rearms doc rs := by
  obtain ⟨hfired, hsame⟩ := fired_rewrite doc rs
  cases hlast : rs.getLast? with
  | none =>
    obtain rfl := List.getLast?_eq_none_iff.mp hlast
    refine ⟨fun _ _ last h => ?_, fun _ => .refl doc⟩
    cases h
  | some last =>
    obtain ⟨hstart, htitle, hend, hlead⟩ := rewrite_getLast doc hlast
    have hrearms : Rearms doc rs ↔ (doc.reminder_fired = true →
        if ∀ r ∈ rs, SamePlace doc r then
          last.1.remind_before_ms = none ∨ last.1.remind_before_ms = doc.remind_before_ms
        else ¬ (SamePlace doc last ∧ last.1.endOf last.2 = doc.end_ms ∧
          last.1.remind_before_ms = doc.remind_before_ms)) := by
      unfold Rearms
      rw [hlast]
      simp
    rw [hrearms]
    cases hdoc : doc.reminder_fired with
    | false =>
      rw [hdoc, Bool.and_false] at hfired
      refine ⟨fun _ h => (nomatch h), fun _ => ⟨fun _ _ _ => hfired, fun _ _ _ _ _ => ?_⟩⟩
      rw [hfired, hdoc]
    | true =>
      rw [hdoc, Bool.and_true] at hfired
      rw [forall_prop_of_true rfl]
      split_ifs with hall
      · -- nothing was moved, so the flag is as it was
        rw [decide_eq_true hall] at hfired
        have hmoved := remind_at_moved_iff (hsame hall).1
        rw [hlead] at hmoved
        constructor
        · intro h
          by_contra hno
          obtain ⟨t, ht, hne⟩ := hmoved.mpr hno
          have hcleared := h.moved t ht hne
          rw [hfired] at hcleared
          cases hcleared
        · intro h
          refine ⟨fun t ht hne => absurd h (hmoved.mp ⟨t, ht, hne⟩), fun _ _ _ _ _ => ?_⟩
          rw [hfired, hdoc]
      · rw [decide_eq_false hall] at hfired
        constructor
        · rintro h ⟨⟨hstart', htitle'⟩, hend', hlead'⟩
          have hkept := h.kept (hstart.trans hstart') (hend.trans hend') (hlead.trans hlead')
            (rrule_rewrite doc rs) (htitle.trans htitle')
          rw [hfired, hdoc] at hkept
          cases hkept
        · intro h
          refine ⟨fun _ _ _ => hfired, fun hstart' hend' hlead' _ htitle' => ?_⟩
          exact absurd ⟨⟨hstart.symm.trans hstart', htitle.symm.trans htitle'⟩,
            hend.symm.trans hend', hlead.symm.trans hlead'⟩ h

/-! ## Calls and their log -/

/-- A logged call is a call. -/
theorem exec_alone_of_logged {α : Type} {m : Act α} {r : α} (h : Exec LoggedAlone g m r g') :
    Exec Alone g.world m r g'.world := by
  induction h with
  | done => exact .done
  | call hw _ ih =>
    obtain ⟨clock, fate, hserve, -⟩ := hw
    exact .call ⟨clock, fate, hserve⟩ ih

/-- The effect stores no occurrence. -/
def Eff.Silent (e : Eff) : Prop :=
  ∀ stored fate, e.log stored fate = stored

theorem stored_of_asks {α : Type} {m : Act α} {r : α} (hasks : Asks Eff.Silent m)
    (h : Exec LoggedAlone g m r g') : g'.stored = g.stored := by
  induction h with
  | done => rfl
  | call hw _ ih =>
    cases hasks with
    | call he hk =>
      obtain ⟨clock, fate, -, hlog⟩ := hw
      rw [ih (hk _), hlog]
      exact he _ _

theorem onto_log {g₁ : Logged} {fate : Fate} (hlog : g₁.stored =
      (Eff.db_set (.import_ics event start_ms) doc).log g.stored fate) (id : String) :
    g₁.onto id = if fate.done = true ∧ doc.id = id then g.onto id ++ [(event, start_ms)]
      else g.onto id := by
  unfold Logged.onto
  rw [hlog]
  unfold Eff.log
  cases fate.done with
  | false => simp
  | true =>
    by_cases hid : doc.id = id
    · simp [hid, List.filterMap_append]
    · simp [hid, List.filterMap_append]

/-! ## One occurrence -/

/-- The events that were stored before the call are as the occurrences stored in their places make
    them. -/
def Traced (w₀ : World) (g : Logged) : Prop :=
  ∀ (id : String) (doc : EventDoc), w₀.docs[id]? = some doc →
    ∃ doc', g.world.docs[id]? = some doc' ∧ doc'.unstamped = (rewrite doc (g.onto id)).unstamped

/-- An import that goes on. -/
structure Importing (w₀ : World) (s : Import) (g : Logged) : Prop where
  linked : Linked [] s g.world
  later : w₀.next_id ≤ g.world.next_id
  traced : Traced w₀ g

theorem Traced.congr {w₀ : World} (h : Traced w₀ g) (hdocs : g'.world.docs = g.world.docs)
    (hstored : g'.stored = g.stored) : Traced w₀ g' := by
  intro id doc hdoc
  unfold Logged.onto
  rw [hdocs, hstored]
  exact h id doc hdoc

/-- A document is written in the place of none of the events, or of the event it is made of. -/
theorem Traced.put {w₀ : World} {fate : Fate} (h : Traced w₀ g) (hput : Put doc fate.done g.world g₁.world)
    (hlog : g₁.stored = (Eff.db_set (.import_ics event start_ms) doc).log g.stored fate)
    (hdoc : ∀ old, w₀.docs[doc.id]? = some old → ∃ cur, g.world.docs[doc.id]? = some cur ∧
      doc.unstamped = (event.update cur start_ms 0).unstamped) : Traced w₀ g₁ := by
  intro id old hold
  rw [hput.docs, onto_log hlog]
  split_ifs with hdone
  · obtain ⟨-, rfl⟩ := hdone
    obtain ⟨cur, hcur, heq⟩ := hdoc old hold
    obtain ⟨cur', hcur', htraced⟩ := h doc.id old hold
    obtain rfl := Option.some.inj (hcur.symm.trans hcur')
    refine ⟨doc, rfl, heq.trans ?_⟩
    rw [rewrite_concat]
    unfold EventDoc.unstamped at htraced ⊢
    unfold ParsedEvent.update
    rw [EventDoc.mk.injEq] at htraced ⊢
    simp only at htraced ⊢
    obtain ⟨hid, htitle, -, hstart, -, -, -, hfired, htags, huid, hrrule, hcreated, -⟩ := htraced
    rw [hid, htitle, hstart, hfired, htags, huid, hrrule, hcreated]
    simp
  · exact h id old hold

theorem exec_logged_put {α : Type} {writer : Writer} {k : Except String Unit → Act α} {r : α}
    (h : Exec LoggedAlone g (Db.put writer doc >>= k) r g') :
    ∃ answer fate g₁, Put doc fate.done g.world g₁.world ∧
      g₁.stored = (Eff.db_set writer doc).log g.stored fate ∧
      (answer = .ok () → fate.done = true) ∧ Exec LoggedAlone g₁ (k answer) r g' := by
  obtain ⟨answer, g₁, ⟨clock, fate, hserve, hlog⟩, h⟩ := exec_call_iff.mp h
  obtain ⟨hput, hdone⟩ := put_of_serve hserve
  exact ⟨answer, fate, g₁, hput, hlog, hdone, h⟩

/-- A new event without a UID is not known. -/
theorem Linked.added_unnamed {w w' : World} (h : Linked [] s w) (huid : event.uid = "")
    (hput : Put (event.newDoc (toString (w.next_id + 1)) start_ms now) true
      { w with next_id := w.next_id + 1 } w') :
    Linked [] (s.added event (event.newDoc (toString (w.next_id + 1)) start_ms now)) w' := by
  have hby : (s.added event (event.newDoc (toString (w.next_id + 1)) start_ms now)).by_uid = s.by_uid :=
    if_pos huid
  refine ⟨?_, fun uid known hknown => ?_, fun _ _ hmem => nomatch hmem⟩
  · refine hput.counted (fun id doc hdoc => ?_) ⟨w.next_id + 1, Nat.le_refl _, rfl⟩
    obtain ⟨n, hn, rfl⟩ := h.counted id doc hdoc
    exact ⟨n, Nat.le_succ_of_le hn, rfl⟩
  · rw [hby] at hknown
    obtain ⟨hstored, hics⟩ := h.stored uid known hknown
    refine ⟨?_, hics⟩
    rw [hput.docs, if_neg]
    · exact hstored
    · rintro ⟨-, hid⟩
      change toString (w.next_id + 1) = known.id at hid
      rw [← hid, h.counted.fresh] at hstored
      cases hstored

theorem trace_import_occurrence {w₀ : World} {r : Except String Import} (hcounted : w₀.Counted)
    (h : Importing w₀ s g) (hexec : Exec LoggedAlone g (import_occurrence now event start_ms s) r g') :
    Traced w₀ g' ∧ ∀ s', r = .ok s' → Importing w₀ s' g' := by
  unfold import_occurrence at hexec
  split_ifs at hexec
  · obtain ⟨rfl, rfl⟩ := exec_done_iff.mp hexec
    exact ⟨h.traced, fun s' h => nomatch h⟩
  cases hknown : s.known event with
  | some known =>
    rw [hknown] at hexec
    obtain ⟨updated_at_ms, g₁, ⟨clock, fate, hnow, hlog₁⟩, hexec⟩ := exec_call_iff.mp hexec
    obtain ⟨answer, fate', g₂, hput, hlog, hdone, hexec⟩ := exec_logged_put hexec
    have hworld : g₁.world = g.world.turn clock fate := (Prod.mk.inj hnow).2.symm
    have hby : s.by_uid[event.uid]? = some known := by
      unfold Import.known at hknown
      split_ifs at hknown
      exact hknown
    obtain ⟨hstored, -⟩ := h.linked.stored event.uid known hby
    have hput : Put (event.update known start_ms updated_at_ms) fate'.done g.world g₂.world := by
      rw [hworld] at hput
      exact ⟨hput.docs, hput.next_id⟩
    have hlog : g₂.stored =
        (Eff.db_set (.import_ics event start_ms) (event.update known start_ms updated_at_ms)).log
          g.stored fate' := by
      rw [hlog, hlog₁]
      rfl
    have htraced : Traced w₀ g₂ :=
      h.traced.put hput hlog fun _ _ => ⟨known, hstored, rfl⟩
    rcases answer with e | _
    · obtain ⟨rfl, rfl⟩ := exec_done_iff.mp hexec
      exact ⟨htraced, fun s' h => nomatch h⟩
    · obtain ⟨rfl, rfl⟩ := exec_done_iff.mp hexec
      refine ⟨htraced, fun s' hs' => ?_⟩
      obtain rfl := Except.ok.inj hs'
      rw [hdone rfl] at hput
      exact ⟨h.linked.updated hby hput, hput.next_id ▸ h.later, htraced⟩
  | none =>
    rw [hknown] at hexec
    obtain ⟨n, g₁, ⟨clock, fate, hincr, hlog₁⟩, hexec⟩ := exec_call_iff.mp hexec
    obtain ⟨hn, hworld⟩ := Prod.mk.inj hincr
    change fate.answer (g.world.next_id + 1) = n at hn
    have hdocs : g₁.world.docs = g.world.docs := by
      rw [← hworld]
      show (fate.write (g.world.turn clock fate) _).docs = _
      rw [Fate.write_eq]
      split_ifs
      · rfl
      · rfl
    rcases n with e | n
    · obtain ⟨rfl, rfl⟩ := exec_done_iff.mp hexec
      exact ⟨h.traced.congr hdocs hlog₁, fun s' h => nomatch h⟩
    obtain ⟨rfl, rfl⟩ := Fate.answer_eq_ok_iff.mp hn
    obtain ⟨answer, fate', g₂, hput, hlog, hdone, hexec⟩ := exec_logged_put hexec
    have hlater := h.later
    have hput : Put (event.newDoc (toString (g.world.next_id + 1)) start_ms now) fate'.done
        { g.world with next_id := g.world.next_id + 1 } g₂.world := by
      rw [← hworld] at hput
      exact ⟨hput.docs, hput.next_id⟩
    have htraced : Traced w₀ g₂ := by
      have hput' : Put (event.newDoc (toString (g.world.next_id + 1)) start_ms now) fate'.done
          g₁.world g₂.world := by
        rw [← hworld]
        exact ⟨hput.docs, hput.next_id⟩
      refine (h.traced.congr hdocs hlog₁).put hput' hlog fun old hold => ?_
      -- the id is one that no event had before the call
      obtain ⟨k, hk, heq⟩ := hcounted _ old hold
      have hsame : g.world.next_id + 1 = k := Nat.repr_injective heq
      omega
    rcases answer with e | _
    · obtain ⟨rfl, rfl⟩ := exec_done_iff.mp hexec
      exact ⟨htraced, fun s' h => nomatch h⟩
    · obtain ⟨rfl, rfl⟩ := exec_done_iff.mp hexec
      refine ⟨htraced, fun s' hs' => ?_⟩
      obtain rfl := Except.ok.inj hs'
      rw [hdone rfl] at hput
      have hnext : g'.world.next_id = g.world.next_id + 1 := hput.next_id
      refine ⟨?_, by omega, htraced⟩
      by_cases huid : event.uid = ""
      · exact h.linked.added_unnamed huid hput
      · rw [known_eq huid] at hknown
        exact h.linked.added huid hknown hput

/-! ## A whole import -/

theorem trace_import_occurrences {w₀ : World} {starts : List Int64} {r : Except String Import}
    (hcounted : w₀.Counted) (h : Importing w₀ s g)
    (hexec : Exec LoggedAlone g (import_occurrences now event starts s) r g') :
    Traced w₀ g' ∧ ∀ s', r = .ok s' → Importing w₀ s' g' := by
  induction starts generalizing s g with
  | nil =>
    obtain ⟨rfl, rfl⟩ := exec_done_iff.mp hexec
    refine ⟨h.traced, fun s' hs' => ?_⟩
    obtain rfl := Except.ok.inj hs'
    exact h
  | cons start starts ih =>
    obtain ⟨r₁, g₁, hone, hrest⟩ := exec_bind_iff.mp hexec
    obtain ⟨htraced, hon⟩ := trace_import_occurrence hcounted h hone
    rcases r₁ with e | s₁
    · obtain ⟨rfl, rfl⟩ := exec_done_iff.mp hrest
      exact ⟨htraced, fun s' h => nomatch h⟩
    · exact ih (hon s₁ rfl) hrest

theorem trace_import_events {w₀ : World} {events : List ParsedEvent} {r : Option (Except String Import)}
    (hcounted : w₀.Counted) (h : Importing w₀ s g)
    (hexec : Exec LoggedAlone g (import_events fuel now events s) r g') : Traced w₀ g' := by
  induction events generalizing s g with
  | nil =>
    obtain ⟨-, rfl⟩ := exec_done_iff.mp hexec
    exact h.traced
  | cons event events ih =>
    unfold import_events at hexec
    cases hstarts : occurrences fuel event (window_start now) (window_end now) with
    | none =>
      rw [hstarts] at hexec
      obtain ⟨-, rfl⟩ := exec_done_iff.mp hexec
      exact h.traced
    | some starts =>
      rw [hstarts] at hexec
      obtain ⟨r₁, g₁, hfirst, hrest⟩ := exec_bind_iff.mp hexec
      obtain ⟨htraced, hon⟩ := trace_import_occurrences hcounted h hfirst
      rcases r₁ with e | s₁
      · obtain ⟨-, rfl⟩ := exec_done_iff.mp hrest
        exact htraced
      · exact ih (hon s₁ rfl) hrest

theorem asks_list : Asks Eff.Silent Db.list := by
  refine .call (fun _ _ => rfl) fun keys => ?_
  rcases keys with e | keys
  · exact .done
  · show Asks _ (if keys = [] then _ else _)
    split_ifs
    · exact .done
    · exact asks_perform fun _ _ => rfl

theorem trace_import_at {parsed : List ParsedEvent} {r : Option (Except String ActionResult)}
    (hcounted : g.world.Counted) (hstored : g.stored = [])
    (hexec : Exec LoggedAlone g (import_at fuel parsed now) r g') : Traced g.world g' := by
  unfold import_at at hexec
  obtain ⟨existing, g₁, hlist, hrest⟩ := exec_bind_iff.mp hexec
  obtain ⟨hdocs, hnext, hexisting⟩ := exec_list (exec_alone_of_logged hlist)
  have htraced : Traced g.world g₁ := by
    intro id doc hdoc
    unfold Logged.onto
    rw [stored_of_asks asks_list hlist, hstored, hdocs]
    exact ⟨doc, hdoc, rfl⟩
  rcases existing with e | existing
  · obtain ⟨-, rfl⟩ := exec_done_iff.mp hrest
    exact htraced
  obtain ⟨r₂, g₂, hevents, hend⟩ := exec_bind_iff.mp hrest
  obtain rfl : g' = g₂ := by
    rcases r₂ with _ | (e | s)
    · exact (exec_done_iff.mp hend).2
    · exact (exec_done_iff.mp hend).2
    · exact (exec_done_iff.mp hend).2
  have hcounted₁ : g₁.world.Counted := by
    unfold World.Counted
    rw [hdocs, hnext]
    exact hcounted
  have hlinked : Linked [] (.start existing) g₁.world := by
    refine linked_start hcounted₁ (fun _ h => nomatch h) fun doc => ?_
    rw [hdocs]
    exact hexisting existing rfl doc
  exact trace_import_events hcounted ⟨hlinked, hnext ▸ le_rfl, htraced⟩ hevents

/-! ## The other actions -/

variable {w w' w₁ : World} {patch : EventPatch}

theorem exec_event_update {r : Except String ActionResult}
    (h : Exec Alone w (event_update id patch) r w') :
    w'.docs = w.docs ∨ ∃ doc updated updated_at_ms, w.docs[id]? = some doc ∧
      patch.apply doc = .ok updated ∧
      ∀ id' : String, w'.docs[id']? =
        if id = id' then some { updated with updated_at_ms } else w.docs[id']? := by
  unfold event_update at h
  obtain ⟨found, w₁, ⟨clock, fate, hget⟩, h⟩ := exec_call_iff.mp h
  obtain ⟨hfound, rfl⟩ := Prod.mk.inj hget
  change fate.answer w.docs[id]? = found at hfound
  rcases found with e | (_ | doc)
  · obtain ⟨-, rfl⟩ := exec_done_iff.mp h
    exact .inl rfl
  · obtain ⟨-, rfl⟩ := exec_done_iff.mp h
    exact .inl rfl
  obtain ⟨-, hdoc⟩ := Fate.answer_eq_ok_iff.mp hfound
  dsimp only [Async.bind] at h
  cases happly : patch.apply doc with
  | error e =>
    rw [happly] at h
    obtain ⟨-, rfl⟩ := exec_done_iff.mp h
    exact .inl rfl
  | ok updated =>
    rw [happly] at h
    obtain ⟨updated_at_ms, w₂, ⟨clock', fate', hnow⟩, h⟩ := exec_call_iff.mp h
    obtain ⟨-, rfl⟩ := Prod.mk.inj hnow
    obtain ⟨answer, done, w₃, hput, -, h⟩ := exec_put h
    obtain rfl : w' = w₃ := by
      rcases answer with e | _
      · exact (exec_done_iff.mp h).2
      · exact (exec_done_iff.mp h).2
    have hid : updated.id = id := by
      unfold EventPatch.apply at happly
      obtain ⟨_, -, happly⟩ := Rust.bind_eq_ok.mp happly
      obtain rfl := (Except.ok.inj happly).symm
      exact w.keyed id doc hdoc
    cases done with
    | false =>
      refine .inl (Std.ExtTreeMap.ext_getElem? fun id' => ?_)
      exact (hput.docs id').trans (if_neg fun h => Bool.false_ne_true h.1)
    | true =>
      refine .inr ⟨doc, updated, updated_at_ms, hdoc, happly, fun id' => ?_⟩
      rw [hput.docs]
      show (if true = true ∧ updated.id = id' then _ else w.docs[id']?) = _
      simp only [true_and, hid]

theorem exec_event_create {new : NewEvent} {r : Except String ActionResult} (hcounted : w.Counted)
    (h : Exec Alone w (event_create new) r w') (hdoc : w.docs[id]? = some doc) :
    w'.docs[id]? = some doc := by
  unfold event_create at h
  obtain ⟨n, w₁, ⟨clock, fate, hincr⟩, h⟩ := exec_call_iff.mp h
  obtain ⟨hn, rfl⟩ := Prod.mk.inj hincr
  change fate.answer (w.next_id + 1) = n at hn
  have hdocs : (fate.write (w.turn clock fate)
      { w.turn clock fate with next_id := w.next_id + 1 }).docs = w.docs := by
    rw [Fate.write_eq]
    split_ifs
    · rfl
    · rfl
  rcases n with e | n
  · obtain ⟨-, rfl⟩ := exec_done_iff.mp h
    exact (congrArg (·[id]?) hdocs).trans hdoc
  · obtain ⟨-, rfl⟩ := Fate.answer_eq_ok_iff.mp hn
    obtain ⟨now, w₂, ⟨clock', fate', hnow⟩, h⟩ := exec_call_iff.mp h
    obtain ⟨-, rfl⟩ := Prod.mk.inj hnow
    obtain ⟨answer, done, w₃, hput, -, h⟩ := exec_put h
    obtain rfl : w' = w₃ := by
      rcases answer with e | _
      · exact (exec_done_iff.mp h).2
      · exact (exec_done_iff.mp h).2
    rw [hput.docs, if_neg]
    · exact (congrArg (·[id]?) hdocs).trans hdoc
    · rintro ⟨-, hid⟩
      change toString (w.next_id + 1) = id at hid
      rw [← hid, hcounted.fresh] at hdoc
      cases hdoc

/-- The calls but those of an import store no occurrence. -/
theorem asks_handle_action {c : Crates} {params : Params}
    (h : ∀ ics_base64, parse_request c params ≠ .ok (.Import ics_base64)) :
    Asks Eff.Silent (handle_action c fuel params) := by
  unfold handle_action
  cases hreq : parse_request c params with
  | error e => exact .done
  | ok req =>
    cases req with
    | Create new =>
      refine Asks.bind (.call (fun _ _ => rfl) fun n => ?_) fun _ => .done
      rcases n with e | n
      · exact .done
      · refine .call (fun _ _ => rfl) fun now => .call (fun _ _ => rfl) fun answer => ?_
        rcases answer with e | _
        · exact .done
        · exact .done
    | Get id =>
      refine .call (fun _ _ => rfl) fun answer => ?_
      rcases answer with e | _
      · exact .done
      · exact .done
    | Update id patch =>
      refine Asks.bind (.call (fun _ _ => rfl) fun found => ?_) fun _ => .done
      rcases found with e | (_ | doc)
      · exact .done
      · exact .done
      · dsimp only [Async.bind]
        cases patch.apply doc with
        | error e => exact .done
        | ok updated =>
          refine .call (fun _ _ => rfl) fun now => .call (fun _ _ => rfl) fun answer => ?_
          rcases answer with e | _
          · exact .done
          · exact .done
    | Delete id =>
      refine .call (fun _ _ => rfl) fun answer => ?_
      rcases answer with e | _
      · exact .done
      · exact .done
    | Import ics_base64 => exact absurd hreq (h ics_base64)
    | Export =>
      refine Asks.bind asks_list fun listed => ?_
      rcases listed with e | events
      · exact .done
      · dsimp only
        cases generate_ics (events.mergeSort fun a b => a.start_ms ≤ b.start_ms) with
        | none => exact .done
        | some text => exact .done

/-- A call other than an import leaves an event as it is, takes it away, or updates it. -/
theorem exec_handle_action {c : Crates} {params : Params} {r : Option (Except String ActionResult)}
    (himport : ∀ ics_base64, parse_request c params ≠ .ok (.Import ics_base64)) (hcounted : w.Counted)
    (h : Exec Alone w (handle_action c fuel params) r w') (hdoc : w.docs[id]? = some doc)
    (hdoc' : w'.docs[id]? = some doc') : Rearmed doc doc' := by
  have hunchanged : w'.docs = w.docs → Rearmed doc doc' := by
    intro hdocs
    rw [hdocs, hdoc] at hdoc'
    obtain rfl := Option.some.inj hdoc'
    exact .refl doc
  unfold handle_action at h
  cases hreq : parse_request c params with
  | error e =>
    rw [hreq] at h
    obtain ⟨-, rfl⟩ := exec_done_iff.mp h
    exact hunchanged rfl
  | ok req =>
    rw [hreq] at h
    cases req with
    | Create new =>
      obtain ⟨_, w₁, hcreate, h⟩ := exec_bind_iff.mp h
      obtain ⟨-, rfl⟩ := exec_done_iff.mp h
      rw [exec_event_create hcounted hcreate hdoc] at hdoc'
      obtain rfl := Option.some.inj hdoc'
      exact .refl doc
    | Get id' =>
      obtain ⟨answer, w₁, ⟨clock, fate, hget⟩, h⟩ := exec_call_iff.mp h
      obtain ⟨-, rfl⟩ := Prod.mk.inj hget
      rcases answer with e | _
      · obtain ⟨-, rfl⟩ := exec_done_iff.mp h
        exact hunchanged rfl
      · obtain ⟨-, rfl⟩ := exec_done_iff.mp h
        exact hunchanged rfl
    | Update id' patch =>
      obtain ⟨_, w₁, hupdate, h⟩ := exec_bind_iff.mp h
      obtain ⟨-, rfl⟩ := exec_done_iff.mp h
      rcases exec_event_update hupdate with hdocs | ⟨old, updated, stamp, hold, happly, hdocs⟩
      · exact hunchanged hdocs
      · rw [hdocs] at hdoc'
        split_ifs at hdoc' with hid
        · subst hid
          obtain rfl := Option.some.inj (hold.symm.trans hdoc)
          obtain rfl := Option.some.inj hdoc'
          exact rearmed_update happly stamp
        · obtain rfl := Option.some.inj (hdoc.symm.trans hdoc')
          exact .refl doc
    | Delete id' =>
      obtain ⟨answer, w₁, ⟨clock, fate, hdelete⟩, h⟩ := exec_call_iff.mp h
      obtain ⟨-, hworld⟩ := Prod.mk.inj hdelete
      obtain rfl : w' = w₁ := by
        rcases answer with e | _
        · exact (exec_done_iff.mp h).2
        · exact (exec_done_iff.mp h).2
      rw [← hworld, Fate.write_eq] at hdoc'
      have hsame : w.docs[id]? = some doc' := by
        split_ifs at hdoc'
        · rw [World.getElem?_delete] at hdoc'
          split_ifs at hdoc'
          exact hdoc'
        · exact hdoc'
      obtain rfl := Option.some.inj (hdoc.symm.trans hsame)
      exact .refl doc
    | Import ics_base64 => exact absurd hreq (himport ics_base64)
    | Export =>
      obtain ⟨listed, w₁, hlist, h⟩ := exec_bind_iff.mp h
      obtain ⟨hdocs, -, -⟩ := exec_list hlist
      obtain rfl : w' = w₁ := by
        rcases listed with e | events
        · exact (exec_done_iff.mp h).2
        · dsimp only at h
          cases hics : generate_ics (events.mergeSort fun a b => a.start_ms ≤ b.start_ms) with
          | none =>
            rw [hics] at h
            exact (exec_done_iff.mp h).2
          | some text =>
            rw [hics] at h
            exact (exec_done_iff.mp h).2
      exact hunchanged hdocs

/-! ## The law -/

/-- A call that changes an event rearms its reminder as it should if and only if the occurrences that
    it stores in the place of the event do. -/
theorem rescheduling_rearms_iff {c : Crates} {params : Params}
    {r : Option (Except String ActionResult)} (hcounted : g.world.Counted) (hstored : g.stored = [])
    (h : Exec LoggedAlone g (handle_action c fuel params) r g') (hdoc : g.world.docs[id]? = some doc)
    (hdoc' : g'.world.docs[id]? = some doc') : Rearmed doc doc' ↔ Rearms doc (g'.onto id) := by
  by_cases himport : ∀ ics_base64, parse_request c params ≠ .ok (.Import ics_base64)
  · have hnone : g'.onto id = [] := by
      unfold Logged.onto
      rw [stored_of_asks (asks_handle_action himport) h, hstored]
      rfl
    rw [hnone]
    exact ⟨fun _ _ last h => (nomatch h),
      fun _ => exec_handle_action himport hcounted (exec_alone_of_logged h) hdoc hdoc'⟩
  · obtain ⟨ics_base64, hreq⟩ := not_forall_not.mp himport
    unfold handle_action at h
    rw [hreq] at h
    have htraced : Traced g.world g' := by
      change Exec LoggedAlone g (import_ics c fuel ics_base64) r g' at h
      unfold import_ics at h
      cases hdecode : decode_ics c ics_base64 with
      | error e =>
        rw [hdecode] at h
        obtain ⟨-, rfl⟩ := exec_done_iff.mp h
        intro id doc hdoc
        unfold Logged.onto
        rw [hstored]
        exact ⟨doc, hdoc, rfl⟩
      | ok parsed =>
        rw [hdecode] at h
        obtain ⟨now, g₁, ⟨clock, fate, hnow, hlog⟩, h⟩ := exec_call_iff.mp h
        obtain ⟨-, hworld⟩ := Prod.mk.inj hnow
        have hcounted₁ : g₁.world.Counted := hworld ▸ hcounted
        have htraced := trace_import_at hcounted₁ (hlog.trans hstored) h
        intro id doc hdoc
        exact htraced id doc (by rw [← hworld]; exact hdoc)
    obtain ⟨final, hfinal, heq⟩ := htraced id doc hdoc
    obtain rfl := Option.some.inj (hdoc'.symm.trans hfinal)
    rw [Rearmed.unstamped heq]
    exact rearmed_rewrite_iff doc (g'.onto id)

/-! ## A calendar that is imported again -/

/-- A crate for one calendar. -/
def decoding (calendar : String) : Crates where
  rrule_from_str _ := .ok ()
  base64_decode _ := .ok calendar.toUTF8

theorem fromUTF8?_toUTF8 (s : String) : String.fromUTF8? s.toUTF8 = some s := by
  have hvalid : s.toUTF8.IsValidUTF8 := s.isValidUTF8
  unfold String.fromUTF8?
  rw [dif_pos hvalid]
  rfl

theorem decode_ics_decoding {calendar : String} {event : ParsedEvent} {events : List ParsedEvent}
    (h : parse_ics calendar.toList = .ok (event :: events)) :
    decode_ics (decoding calendar) "" = .ok (event :: events) := by
  show ((String.fromUTF8? calendar.toUTF8).elim _ Except.ok >>= _) = _
  rw [fromUTF8?_toUTF8]
  show (parse_ics calendar.toList >>= _) = _
  rw [h]
  rfl

theorem handle_import {c : Crates} {ics_base64 : String}
    (h : parse_request c (.calendar_ics_import ics_base64) = .ok (.Import ics_base64)) (fuel : Nat) :
    handle_action c fuel (.calendar_ics_import ics_base64) = import_ics c fuel ics_base64 := by
  unfold handle_action
  rw [h]

theorem run_import_ics {c : Crates} {ics_base64 : String} {parsed : List ParsedEvent} {σ : Type}
    {serve : (e : Eff) → σ → e.Answer × σ} {s : σ} (h : decode_ics c ics_base64 = .ok parsed) (fuel : Nat) :
    run serve (import_ics c fuel ics_base64) s =
      run serve (import_at fuel parsed (serve .now s).1) (serve .now s).2 := by
  unfold import_ics
  rw [h]
  rfl

/-- A meeting with a reminder, at the given start. -/
def meeting (start trigger : String) : String :=
  "BEGIN:VEVENT\r\nUID:standup@team\r\nSUMMARY:standup\r\nDTSTART:" ++ start ++
    "\r\nBEGIN:VALARM\r\nTRIGGER:" ++ trigger ++ "\r\nEND:VALARM\r\nEND:VEVENT\r\n"

/-- The meeting of 10:40, which was reminded of a quarter of an hour before. -/
def remindedDoc : EventDoc where
  id := "1"
  title := "standup"
  description := ""
  start_ms := 1755600000000
  end_ms := none
  all_day := false
  remind_before_ms := some 900000
  reminder_fired := true
  tags := []
  ics_uid := some "standup@team"
  rrule := none
  created_at_ms := 0
  updated_at_ms := 0

def remindedWorld : Logged where
  world := { World.empty.put remindedDoc with next_id := 1 }
  stored := []

theorem counted_remindedWorld : remindedWorld.world.Counted := by
  intro id doc hdoc
  change (World.empty.put remindedDoc).docs[id]? = some doc at hdoc
  rw [World.getElem?_put] at hdoc
  split_ifs at hdoc with hid
  · exact ⟨1, le_rfl, hid.symm⟩
  · change (∅ : Table String EventDoc)[id]? = some doc at hdoc
    simp at hdoc

def importMeeting (start trigger : String) : Option (Except String ActionResult) × Logged :=
  run (Logged.serveOk 1755599500000)
    (handle_action (decoding (meeting start trigger)) 10 (.calendar_ics_import "")) remindedWorld

/-- The meeting as it is parsed. -/
def meetingEvent (start_ms lead : Int64) : ParsedEvent where
  title := "standup"
  description := ""
  start_ms
  end_ms := none
  all_day := false
  remind_before_ms := some lead
  uid := "standup@team"
  rrule := none

/-- The import of the meeting, once it is parsed. -/
def importEvent (event : ParsedEvent) : Option (Except String ActionResult) × Logged :=
  run (Logged.serveOk 1755599500000) (import_at 10 [event] 1755599500000)
    (Logged.serveOk 1755599500000 .now remindedWorld).2

theorem importMeeting_eq {start trigger : String} {event : ParsedEvent}
    (h : (parse_ics (meeting start trigger).toList).toOption = some [event]) :
    importMeeting start trigger = importEvent event := by
  have hparse : parse_ics (meeting start trigger).toList = .ok [event] := by
    cases hevents : parse_ics (meeting start trigger).toList with
    | error e =>
      rw [hevents] at h
      cases h
    | ok events =>
      rw [hevents] at h
      exact congrArg Except.ok (Option.some.inj h)
  unfold importMeeting importEvent
  rw [handle_import rfl, run_import_ics (decode_ics_decoding hparse)]
  rfl

theorem exec_importMeeting (start trigger : String) :
    Exec LoggedAlone remindedWorld
      (handle_action (decoding (meeting start trigger)) 10 (.calendar_ics_import ""))
      (importMeeting start trigger).1 (importMeeting start trigger).2 :=
  exec_logged_serveOk 1755599500000 _ remindedWorld

theorem getElem?_remindedWorld : remindedWorld.world.docs["1"]? = some remindedDoc :=
  (World.empty.getElem?_put remindedDoc "1").trans (if_pos rfl)

theorem importMeeting_later :
    importMeeting "20250819T110000Z" "-PT15M" = importEvent (meetingEvent 1755601200000 900000) := by
  refine importMeeting_eq ?_
  unfold meeting
  simp only [String.toList_append]
  decide

theorem importMeeting_earlier :
    importMeeting "20250819T104000Z" "-PT30M" = importEvent (meetingEvent 1755600000000 1800000) := by
  refine importMeeting_eq ?_
  unfold meeting
  simp only [String.toList_append]
  decide

/-- The meeting is moved to 11:00. -/
theorem rescheduling_rearms_iff_sample : ∃ doc',
    (importMeeting "20250819T110000Z" "-PT15M").2.world.docs["1"]? = some doc' ∧
    Rearmed remindedDoc doc' := by
  have hstored : ((importMeeting "20250819T110000Z" "-PT15M").2.world.docs["1"]?).isSome = true := by
    rw [importMeeting_later]
    decide
  have hrearms : Rearms remindedDoc ((importMeeting "20250819T110000Z" "-PT15M").2.onto "1") := by
    rw [importMeeting_later]
    decide
  obtain ⟨doc', hdoc'⟩ := Option.isSome_iff_exists.mp hstored
  have hexec := exec_importMeeting "20250819T110000Z" "-PT15M"
  generalize importMeeting "20250819T110000Z" "-PT15M" = r at hexec hrearms hdoc' ⊢
  exact ⟨doc', hdoc',
    (rescheduling_rearms_iff counted_remindedWorld rfl hexec getElem?_remindedWorld hdoc').mpr hrearms⟩

/-- The reminder is moved to half an hour before the meeting, and its flag stays. -/
theorem import_moves_reminder_unarmed : ∃ doc',
    (importMeeting "20250819T104000Z" "-PT30M").2.world.docs["1"]? = some doc' ∧
    doc'.remind_at = some 1755598200000 ∧ remindedDoc.remind_at = some 1755599100000 ∧
    doc'.reminder_fired = true ∧ ¬ Rearmed remindedDoc doc' := by
  have hstored : ((importMeeting "20250819T104000Z" "-PT30M").2.world.docs["1"]?.any fun doc =>
      doc.remind_at = some 1755598200000 && doc.reminder_fired) = true := by
    rw [importMeeting_earlier]
    decide
  obtain ⟨doc', hdoc', hmoved⟩ := (Option.any_eq_true _ _).mp hstored
  rw [Bool.and_eq_true, decide_eq_true_eq] at hmoved
  have hbefore : remindedDoc.remind_at = some 1755599100000 := by
    decide
  refine ⟨doc', hdoc', hmoved.1, hbefore, hmoved.2, fun hrearmed => ?_⟩
  have hcleared := hrearmed.moved _ hmoved.1 (by rw [hbefore]; decide)
  rw [hmoved.2] at hcleared
  cases hcleared

end Calendar
