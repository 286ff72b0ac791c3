import Mathlib
import VynkorPlugins.Calendar.Imports

/-!
# Imports

While an import runs, the events that it knows by their UID are the stored ones, so each UID of the payload
has at most one stored event.
-/

namespace Calendar

open Async Transition

variable {w w' w₁ : World} {now start_ms : Int64} {fuel : Nat} {event : ParsedEvent} {s s' : Import}

/-! ## Calls -/

/-- What a write makes of the database. -/
structure Put (doc : EventDoc) (done : Bool) (w w' : World) : Prop where
  docs : ∀ id : String, w'.docs[id]? = if done = true ∧ doc.id = id then some doc else w.docs[id]?
  next_id : w'.next_id = w.next_id

theorem put_of_serve {clock : Int64} {fate : Fate} {writer : Writer} {doc : EventDoc}
    {answer : Except String Unit} (h : (w.turn clock fate).serve (.db_set writer doc) = (answer, w')) :
    Put doc fate.done w w' ∧ (answer = .ok () → fate.done = true) := by
  obtain ⟨hanswer, rfl⟩ := Prod.mk.inj h
  change fate.answer () = answer at hanswer
  refine ⟨⟨fun id => ?_, ?_⟩, ?_⟩
  · show (fate.write (w.turn clock fate) ((w.turn clock fate).put doc)).docs[id]? = _
    rw [Fate.write_eq]
    cases fate.done with
    | false => simp [World.turn]
    | true =>
      show ((w.turn clock fate).put doc).docs[id]? = _
      rw [World.getElem?_put]
      simp [World.turn]
  · show (fate.write (w.turn clock fate) ((w.turn clock fate).put doc)).next_id = _
    rw [Fate.write_eq]
    split_ifs
    · rfl
    · rfl
  · rintro rfl
    obtain ⟨rfl, -⟩ := Fate.answer_eq_ok_iff.mp hanswer
    rfl

theorem exec_put {α : Type} {writer : Writer} {doc : EventDoc} {k : Except String Unit → Act α} {r : α}
    (h : Exec Alone w (Db.put writer doc >>= k) r w') :
    ∃ answer done w₁, Put doc done w w₁ ∧ (answer = .ok () → done = true) ∧
      Exec Alone w₁ (k answer) r w' := by
  obtain ⟨answer, w₁, ⟨clock, fate, hput⟩, h⟩ := exec_call_iff.mp h
  obtain ⟨hput, hdone⟩ := put_of_serve hput
  exact ⟨answer, fate.done, w₁, hput, hdone, h⟩

/-- All documents are listed. -/
theorem exec_list {result : Except String (List EventDoc)} (h : Exec Alone w Db.list result w') :
    w'.docs = w.docs ∧ w'.next_id = w.next_id ∧
      ∀ docs, result = .ok docs → ∀ doc, doc ∈ docs ↔ w.docs[doc.id]? = some doc := by
  unfold Db.list at h
  obtain ⟨keys, w₁, ⟨clock, fate, hserve⟩, h⟩ := exec_call_iff.mp h
  obtain ⟨hkeys, rfl⟩ := Prod.mk.inj hserve
  change fate.answer w.docs.keys = keys at hkeys
  rcases keys with e | keys
  · obtain ⟨rfl, rfl⟩ := exec_done_iff.mp h
    exact ⟨rfl, rfl, fun docs h => nomatch h⟩
  obtain ⟨-, rfl⟩ := Fate.answer_eq_ok_iff.mp hkeys
  have hkey {doc : EventDoc} (hdoc : w.docs[doc.id]? = some doc) : doc.id ∈ w.docs.keys := by
    rw [Std.ExtTreeMap.mem_keys]
    exact Std.ExtTreeMap.mem_iff_isSome_getElem?.mpr (by rw [hdoc]; rfl)
  change Exec _ _ (if w.docs.keys = [] then _ else _) _ _ at h
  split_ifs at h with hnone
  · obtain ⟨rfl, rfl⟩ := exec_done_iff.mp h
    refine ⟨rfl, rfl, fun docs h doc => ?_⟩
    obtain rfl := Except.ok.inj h
    refine ⟨fun h => (nomatch h), fun hdoc => ?_⟩
    have hmem := hkey hdoc
    rw [hnone] at hmem
    cases hmem
  · obtain ⟨docs, w₂, ⟨clock', fate', hget⟩, h⟩ := exec_call_iff.mp h
    obtain ⟨hdocs, rfl⟩ := Prod.mk.inj hget
    change fate'.answer (w.rows w.docs.keys) = docs at hdocs
    obtain ⟨rfl, rfl⟩ := exec_done_iff.mp h
    refine ⟨rfl, rfl, fun docs h doc => ?_⟩
    subst h
    obtain ⟨-, rfl⟩ := Fate.answer_eq_ok_iff.mp hdocs
    refine ⟨w.mem_rows, fun hdoc => List.mem_map.mpr ⟨(doc.id, doc), ?_, rfl⟩⟩
    exact Table.mem_selectWhere.mpr ⟨hdoc, decide_eq_true (hkey hdoc)⟩

/-! ## One occurrence -/

/-- What becomes of an occurrence. -/
inductive OccurrenceOutcome (now : Int64) (event : ParsedEvent) (start_ms : Int64) (s : Import)
    (w w' : World) (r : Except String Import) : Prop
  | failed (hdocs : w'.docs = w.docs) (hnext : w.next_id ≤ w'.next_id)
      (hsame : (s.known event).isSome = true → w'.next_id = w.next_id) (hr : ∀ s', r ≠ .ok s')
  | updated {doc : EventDoc} {updated_at_ms : Int64} {done : Bool} (hknown : s.known event = some doc)
      (hput : Put (event.update doc start_ms updated_at_ms) done w w')
      (hr : ∀ s', r = .ok s' →
        done = true ∧ s' = s.wrote event (event.update doc start_ms updated_at_ms))
  | added {done : Bool} (hknown : s.known event = none)
      (hput : Put (event.newDoc (toString (w.next_id + 1)) start_ms now) done
        { w with next_id := w.next_id + 1 } w')
      (hr : ∀ s', r = .ok s' →
        done = true ∧ s' = s.added event (event.newDoc (toString (w.next_id + 1)) start_ms now))

theorem exec_import_occurrence {r : Except String Import}
    (h : Exec Alone w (import_occurrence now event start_ms s) r w') :
    OccurrenceOutcome now event start_ms s w w' r := by
  unfold import_occurrence at h
  split_ifs at h
  · obtain ⟨rfl, rfl⟩ := exec_done_iff.mp h
    exact .failed rfl (Nat.le_refl _) (fun _ => rfl) fun s' h => nomatch h
  cases hknown : s.known event with
  | some doc =>
    rw [hknown] at h
    obtain ⟨updated_at_ms, w₁, ⟨clock, fate, hnow⟩, h⟩ := exec_call_iff.mp h
    obtain ⟨-, rfl⟩ := Prod.mk.inj hnow
    obtain ⟨answer, done, w₂, hput, hdone, h⟩ := exec_put h
    have hput : Put (event.update doc start_ms updated_at_ms) done w w₂ := ⟨hput.docs, hput.next_id⟩
    rcases answer with e | _
    · obtain ⟨rfl, rfl⟩ := exec_done_iff.mp h
      exact .updated hknown hput fun s' h => nomatch h
    · obtain ⟨rfl, rfl⟩ := exec_done_iff.mp h
      exact .updated hknown hput fun s' h => ⟨hdone rfl, (Except.ok.inj h).symm⟩
  | none =>
    rw [hknown] at h
    obtain ⟨n, w₁, ⟨clock, fate, hincr⟩, h⟩ := exec_call_iff.mp h
    obtain ⟨hn, rfl⟩ := Prod.mk.inj hincr
    change fate.answer (w.next_id + 1) = n at hn
    rcases n with e | n
    · obtain ⟨rfl, rfl⟩ := exec_done_iff.mp h
      refine .failed ?_ ?_ (fun hsome => ?_) fun s' h => nomatch h
      · show (fate.write (w.turn clock fate) _).docs = _
        rw [Fate.write_eq]
        split_ifs
        · rfl
        · rfl
      · show w.next_id ≤ (fate.write (w.turn clock fate) _).next_id
        rw [Fate.write_eq]
        split_ifs
        · exact Nat.le_succ _
        · exact Nat.le_refl _
      · rw [hknown] at hsome
        cases hsome
    · obtain ⟨rfl, rfl⟩ := Fate.answer_eq_ok_iff.mp hn
      obtain ⟨answer, done, w₂, hput, hdone, h⟩ := exec_put h
      have hput : Put (event.newDoc (toString (w.next_id + 1)) start_ms now) done
          { w with next_id := w.next_id + 1 } w₂ := ⟨hput.docs, hput.next_id⟩
      rcases answer with e | _
      · obtain ⟨rfl, rfl⟩ := exec_done_iff.mp h
        exact .added hknown hput fun s' h => nomatch h
      · obtain ⟨rfl, rfl⟩ := exec_done_iff.mp h
        exact .added hknown hput fun s' h => ⟨hdone rfl, (Except.ok.inj h).symm⟩

/-! ## Known events -/

variable {uids : List String} {uid : String} {doc : EventDoc}

/-- The events that are known by the UIDs of the payload are the stored ones. -/
structure Linked (uids : List String) (s : Import) (w : World) : Prop where
  counted : w.Counted
  stored : ∀ (uid : String) (doc : EventDoc), s.by_uid[uid]? = some doc →
    w.docs[doc.id]? = some doc ∧ doc.ics_uid = some uid
  known : ∀ (uid : String) (doc : EventDoc), uid ∈ uids → w.docs[doc.id]? = some doc →
    doc.ics_uid = some uid → s.by_uid[uid]? = some doc

/-- A document is stored and known in place of the one that was known, if one was. -/
theorem Linked.insert (h : Linked uids s w) (hput : Put doc true w w') (hcounted : w'.Counted)
    (huid : doc.ics_uid = some uid)
    (hstored : ∀ old, w.docs[doc.id]? = some old → s.by_uid[uid]? = some old)
    (hknown : ∀ old, s.by_uid[uid]? = some old → old.id = doc.id)
    (hby : s'.by_uid = s.by_uid.insert uid doc) : Linked uids s' w' := by
  refine ⟨hcounted, fun uid' doc' hdoc' => ?_, fun uid' doc' hmem hdoc' huid' => ?_⟩
  · rw [hby, Table.getElem?_insert_ite] at hdoc'
    rw [hput.docs]
    split_ifs at hdoc' with hsame
    · obtain rfl := Option.some.inj hdoc'
      subst hsame
      exact ⟨if_pos ⟨rfl, rfl⟩, huid⟩
    · obtain ⟨hold, hold_uid⟩ := h.stored uid' doc' hdoc'
      refine ⟨?_, hold_uid⟩
      rw [if_neg]
      · exact hold
      · rintro ⟨-, hid⟩
        rw [← hid] at hold
        have huid' := (h.stored uid doc' (hstored doc' hold)).2
        exact hsame (Option.some.inj (huid'.symm.trans hold_uid))
  · rw [hby, Table.getElem?_insert_ite]
    rw [hput.docs] at hdoc'
    split_ifs at hdoc' with hid
    · obtain rfl := Option.some.inj hdoc'
      rw [if_pos (Option.some.inj (huid.symm.trans huid'))]
    · have hold := h.known uid' doc' hmem hdoc' huid'
      rw [if_neg]
      · exact hold
      · rintro rfl
        exact hid ⟨rfl, (hknown doc' hold).symm⟩

theorem Put.counted {done : Bool} (h : Put doc done w w') (hcounted : w.Counted)
    (hid : ∃ n ≤ w.next_id, doc.id = toString n) : w'.Counted := by
  intro id doc' hdoc'
  rw [h.next_id]
  rw [h.docs] at hdoc'
  split_ifs at hdoc' with hsame
  · rw [← hsame.2]
    exact hid
  · exact hcounted id doc' hdoc'

/-- A generated id is not stored yet. -/
theorem World.Counted.fresh (h : w.Counted) : w.docs[toString (w.next_id + 1)]? = none := by
  cases hdoc : w.docs[toString (w.next_id + 1)]? with
  | none => rfl
  | some doc =>
    obtain ⟨n, hn, heq⟩ := h _ doc hdoc
    have hsame : w.next_id + 1 = n := Nat.repr_injective heq
    omega

theorem known_eq (huid : event.uid ≠ "") : s.known event = s.by_uid[event.uid]? :=
  if_neg huid

/-- The document is what the import of an occurrence makes of it. -/
def UpToDate (event : ParsedEvent) (start_ms : Int64) (doc : EventDoc) : Prop :=
  ∀ updated_at_ms, event.update doc start_ms updated_at_ms = { doc with updated_at_ms }

theorem UpToDate.start (h : UpToDate event start_ms doc) : doc.start_ms = start_ms :=
  (congrArg EventDoc.start_ms (h 0)).symm

theorem UpToDate.restamp (h : UpToDate event start_ms doc) (updated_at_ms : Int64) :
    UpToDate event start_ms { doc with updated_at_ms } :=
  fun later => h later

theorem upToDate_update (doc : EventDoc) (updated_at_ms : Int64) :
    UpToDate event start_ms (event.update doc start_ms updated_at_ms) := by
  intro later
  unfold ParsedEvent.update
  simp

theorem upToDate_newDoc (id : String) (now : Int64) :
    UpToDate event start_ms (event.newDoc id start_ms now) := by
  intro later
  unfold ParsedEvent.update ParsedEvent.newDoc
  simp

/-- An occurrence is the one of the known document. -/
def Fresh (s : Import) (event : ParsedEvent) (start_ms : Int64) : Prop :=
  ∃ doc, s.by_uid[event.uid]? = some doc ∧ UpToDate event start_ms doc

theorem Linked.updated (h : Linked uids s w) (hdoc : s.by_uid[event.uid]? = some doc)
    {updated_at_ms : Int64} (hput : Put (event.update doc start_ms updated_at_ms) true w w') :
    Linked uids (s.wrote event (event.update doc start_ms updated_at_ms)) w' := by
  obtain ⟨hstored, huid⟩ := h.stored event.uid doc hdoc
  refine h.insert hput (hput.counted h.counted (h.counted doc.id doc hstored)) huid ?_ ?_ rfl
  · intro old hold
    obtain rfl := Option.some.inj (hstored.symm.trans hold)
    exact hdoc
  · intro old hold
    obtain rfl := Option.some.inj (hdoc.symm.trans hold)
    rfl

theorem Linked.added (h : Linked uids s w) (huid : event.uid ≠ "") (hnone : s.by_uid[event.uid]? = none)
    (hput : Put (event.newDoc (toString (w.next_id + 1)) start_ms now) true
      { w with next_id := w.next_id + 1 } w') :
    Linked uids (s.added event (event.newDoc (toString (w.next_id + 1)) start_ms now)) w' := by
  have hcounted : World.Counted { w with next_id := w.next_id + 1 } := by
    intro id doc hdoc
    obtain ⟨n, hn, rfl⟩ := h.counted id doc hdoc
    exact ⟨n, Nat.le_succ_of_le hn, rfl⟩
  have hlinked : Linked uids s { w with next_id := w.next_id + 1 } := ⟨hcounted, h.stored, h.known⟩
  refine hlinked.insert hput (hput.counted hcounted ⟨w.next_id + 1, Nat.le_refl _, rfl⟩) (if_neg huid)
    ?_ ?_ (if_neg huid)
  · intro old hold
    change w.docs[toString (w.next_id + 1)]? = some old at hold
    rw [h.counted.fresh] at hold
    cases hold
  · intro old hold
    rw [hnone] at hold
    cases hold

/-! ## The first import -/

/-- An occurrence is imported. -/
theorem exec_first_occurrence (h : Linked uids s w) (huid : event.uid ≠ "")
    (hexec : Exec Alone w (import_occurrence now event start_ms s) (.ok s') w') :
    Linked uids s' w' ∧ Fresh s' event start_ms ∧
      ∀ uid, uid ≠ event.uid → s'.by_uid[uid]? = s.by_uid[uid]? := by
  cases exec_import_occurrence hexec with
  | failed _ _ _ hr => exact absurd rfl (hr s')
  | @updated doc updated_at_ms done hknown hput hr =>
    obtain ⟨rfl, rfl⟩ := hr s' rfl
    rw [known_eq huid] at hknown
    refine ⟨h.updated hknown hput, ⟨_, ?_, upToDate_update doc updated_at_ms⟩, fun uid hne => ?_⟩
    · exact (Table.getElem?_insert_ite _ _ _ _).trans (if_pos rfl)
    · exact (Table.getElem?_insert_ite _ _ _ _).trans (if_neg hne.symm)
  | @added done hknown hput hr =>
    obtain ⟨rfl, rfl⟩ := hr s' rfl
    rw [known_eq huid] at hknown
    have hby : (s.added event (event.newDoc (toString (w.next_id + 1)) start_ms now)).by_uid =
        s.by_uid.insert event.uid (event.newDoc (toString (w.next_id + 1)) start_ms now) := if_neg huid
    refine ⟨h.added huid hknown hput, ⟨_, ?_, upToDate_newDoc (toString (w.next_id + 1)) now⟩, fun uid hne => ?_⟩
    · rw [hby]
      exact (Table.getElem?_insert_ite _ _ _ _).trans (if_pos rfl)
    · rw [hby]
      exact (Table.getElem?_insert_ite _ _ _ _).trans (if_neg hne.symm)

/-- The last occurrence of an event is the one that stays. -/
theorem exec_first_occurrences {starts : List Int64} (h : Linked uids s w) (huid : event.uid ≠ "")
    (hexec : Exec Alone w (import_occurrences now event starts s) (.ok s') w') :
    Linked uids s' w' ∧ (starts = [] ∨ ∃ last ∈ starts, Fresh s' event last) ∧
      ∀ uid, uid ≠ event.uid → s'.by_uid[uid]? = s.by_uid[uid]? := by
  induction starts generalizing s w with
  | nil =>
    obtain ⟨hs, rfl⟩ := exec_done_iff.mp hexec
    obtain rfl := Except.ok.inj hs
    exact ⟨h, .inl rfl, fun _ _ => rfl⟩
  | cons start_ms starts ih =>
    unfold import_occurrences at hexec
    obtain ⟨r, w₁, hfirst, hrest⟩ := exec_bind_iff.mp hexec
    rcases r with e | s₁
    · cases (exec_done_iff.mp hrest).1
    obtain ⟨hlinked, hfresh, hother⟩ := exec_first_occurrence h huid hfirst
    obtain ⟨hlinked, hlast, hother'⟩ := ih hlinked hrest
    refine ⟨hlinked, .inr ?_, fun uid hne => (hother' uid hne).trans (hother uid hne)⟩
    rcases hlast with rfl | ⟨last, hmem, hlast⟩
    · obtain ⟨hs, -⟩ := exec_done_iff.mp hrest
      obtain rfl := Except.ok.inj hs
      exact ⟨start_ms, List.mem_cons_self, hfresh⟩
    · exact ⟨last, List.mem_cons_of_mem _ hmem, hlast⟩

theorem exec_first_events {events : List ParsedEvent} (h : Linked uids s w)
    (hne : ∀ event ∈ events, event.uid ≠ "") (hnodup : (events.map ParsedEvent.uid).Nodup)
    (hexec : Exec Alone w (import_events fuel now events s) (some (.ok s')) w') :
    Linked uids s' w' ∧
      (∀ event ∈ events, event.starts fuel now = [] ∨
        ∃ last ∈ event.starts fuel now, Fresh s' event last) ∧
      ∀ uid, uid ∉ events.map ParsedEvent.uid → s'.by_uid[uid]? = s.by_uid[uid]? := by
  induction events generalizing s w with
  | nil =>
    obtain ⟨hs, rfl⟩ := exec_done_iff.mp hexec
    obtain rfl := Except.ok.inj (Option.some.inj hs)
    exact ⟨h, fun _ h => (nomatch h), fun _ _ => rfl⟩
  | cons event events ih =>
    rw [List.map_cons, List.nodup_cons] at hnodup
    unfold import_events at hexec
    cases hstarts : occurrences fuel event (window_start now) (window_end now) with
    | none =>
      rw [hstarts] at hexec
      cases (exec_done_iff.mp hexec).1
    | some starts =>
      rw [hstarts] at hexec
      obtain ⟨r, w₁, hfirst, hrest⟩ := exec_bind_iff.mp hexec
      rcases r with e | s₁
      · have hfailed := (exec_done_iff.mp hrest).1
        cases hfailed
      have heq : event.starts fuel now = starts := by
        unfold ParsedEvent.starts
        rw [hstarts]
        rfl
      obtain ⟨hlinked, hlast, hother⟩ :=
        exec_first_occurrences h (hne event List.mem_cons_self) hfirst
      obtain ⟨hlinked, hevents, hother'⟩ :=
        ih hlinked (fun e he => hne e (List.mem_cons_of_mem _ he)) hnodup.2 hrest
      refine ⟨hlinked, fun e he => ?_, fun uid huid => ?_⟩
      · rcases List.mem_cons.mp he with rfl | he
        · rw [heq]
          rcases hlast with hnil | ⟨last, hmem, doc, hdoc, hfresh⟩
          · exact .inl hnil
          · exact .inr ⟨last, hmem, doc, (hother' _ hnodup.1).trans hdoc, hfresh⟩
        · exact hevents e he
      · rw [List.map_cons, List.mem_cons, not_or] at huid
        exact (hother' uid huid.2).trans (hother uid huid.1)

/-! ## The same import again -/

variable {parsed : List ParsedEvent}

/-- Each occurrence is the one of the known document. -/
def AllFresh (fuel : Nat) (now : Int64) (parsed : List ParsedEvent) (s : Import) : Prop :=
  ∀ event ∈ parsed, ∀ start_ms ∈ event.starts fuel now, Fresh s event start_ms

theorem World.Restamped.refl (w : World) : w.Restamped w := ⟨rfl, fun _ => rfl⟩

theorem World.Restamped.trans (h : w.Restamped w₁) (h' : w₁.Restamped w') : w.Restamped w' :=
  ⟨h'.next_id.trans h.next_id, fun id => (h'.docs id).trans (h.docs id)⟩

theorem Put.restamped {done : Bool} {updated_at_ms : Int64} (hdoc : w.docs[doc.id]? = some doc)
    (h : Put { doc with updated_at_ms } done w w') : w.Restamped w' := by
  refine ⟨h.next_id, fun id => ?_⟩
  rw [h.docs]
  split_ifs with hid
  · obtain ⟨-, rfl⟩ := hid
    show some { doc with updated_at_ms }.unstamped = w.docs[doc.id]?.map EventDoc.unstamped
    rw [hdoc]
    rfl
  · rfl

theorem AllFresh.wrote (h : AllFresh fuel now parsed s) (hdoc : s.by_uid[event.uid]? = some doc)
    (updated_at_ms : Int64) : AllFresh fuel now parsed (s.wrote event { doc with updated_at_ms }) := by
  intro e he start hstart
  obtain ⟨doc', hdoc', hfresh⟩ := h e he start hstart
  have hinsert : (s.wrote event { doc with updated_at_ms }).by_uid[e.uid]? =
      if event.uid = e.uid then some { doc with updated_at_ms } else s.by_uid[e.uid]? :=
    Table.getElem?_insert_ite _ _ _ _
  by_cases huid : event.uid = e.uid
  · rw [huid] at hdoc
    obtain rfl := Option.some.inj (hdoc.symm.trans hdoc')
    exact ⟨_, hinsert.trans (if_pos huid), hfresh.restamp updated_at_ms⟩
  · exact ⟨doc', (hinsert.trans (if_neg huid)).trans hdoc', hfresh⟩

theorem exec_again_occurrence {r : Except String Import} (h : Linked uids s w)
    (hall : AllFresh fuel now parsed s) (huid : event.uid ≠ "") (hfresh : Fresh s event start_ms)
    (hexec : Exec Alone w (import_occurrence now event start_ms s) r w') :
    w.Restamped w' ∧ ∀ s', r = .ok s' → Linked uids s' w' ∧ AllFresh fuel now parsed s' := by
  obtain ⟨doc, hdoc, hupdate⟩ := hfresh
  have hknown : s.known event = some doc := (known_eq huid).trans hdoc
  cases exec_import_occurrence hexec with
  | failed hdocs _ hsame hr =>
    refine ⟨⟨hsame (Option.isSome_of_eq_some hknown), fun id => ?_⟩, fun s' h => absurd h (hr s')⟩
    rw [hdocs]
  | @updated doc' updated_at_ms done hknown' hput hr =>
    obtain rfl := Option.some.inj (hknown.symm.trans hknown')
    have hrestamp := hput
    rw [hupdate] at hrestamp
    refine ⟨hrestamp.restamped (h.stored event.uid doc hdoc).1, fun s' hs' => ?_⟩
    obtain ⟨rfl, rfl⟩ := hr s' hs'
    refine ⟨h.updated hdoc hput, ?_⟩
    rw [hupdate]
    exact hall.wrote hdoc updated_at_ms
  | added hnone =>
    rw [hknown] at hnone
    cases hnone

theorem exec_again_occurrences {starts : List Int64} {r : Except String Import} (h : Linked uids s w)
    (hall : AllFresh fuel now parsed s) (hmem : event ∈ parsed) (huid : event.uid ≠ "")
    (hstarts : ∀ start_ms ∈ starts, start_ms ∈ event.starts fuel now)
    (hexec : Exec Alone w (import_occurrences now event starts s) r w') :
    w.Restamped w' ∧ ∀ s', r = .ok s' → Linked uids s' w' ∧ AllFresh fuel now parsed s' := by
  induction starts generalizing s w with
  | nil =>
    obtain ⟨rfl, rfl⟩ := exec_done_iff.mp hexec
    refine ⟨.refl w', fun s' hs' => ?_⟩
    obtain rfl := Except.ok.inj hs'
    exact ⟨h, hall⟩
  | cons start_ms starts ih =>
    unfold import_occurrences at hexec
    obtain ⟨r₁, w₁, hfirst, hrest⟩ := exec_bind_iff.mp hexec
    have hfresh := hall event hmem start_ms (hstarts start_ms List.mem_cons_self)
    obtain ⟨hrestamped, hnext⟩ := exec_again_occurrence h hall huid hfresh hfirst
    rcases r₁ with e | s₁
    · obtain ⟨rfl, rfl⟩ := exec_done_iff.mp hrest
      exact ⟨hrestamped, fun s' h => nomatch h⟩
    · obtain ⟨hlinked, hall⟩ := hnext s₁ rfl
      obtain ⟨hrestamped', hr⟩ :=
        ih hlinked hall (fun start hstart => hstarts start (List.mem_cons_of_mem _ hstart)) hrest
      exact ⟨hrestamped.trans hrestamped', hr⟩

theorem exec_again_events {events : List ParsedEvent} {r : Option (Except String Import)}
    (h : Linked uids s w) (hall : AllFresh fuel now parsed s) (hsub : ∀ event ∈ events, event ∈ parsed)
    (hne : ∀ event ∈ parsed, event.uid ≠ "")
    (hexec : Exec Alone w (import_events fuel now events s) r w') : w.Restamped w' := by
  induction events generalizing s w with
  | nil =>
    obtain ⟨-, rfl⟩ := exec_done_iff.mp hexec
    exact .refl w'
  | cons event events ih =>
    unfold import_events at hexec
    cases hstarts : occurrences fuel event (window_start now) (window_end now) with
    | none =>
      rw [hstarts] at hexec
      obtain ⟨-, rfl⟩ := exec_done_iff.mp hexec
      exact .refl w'
    | some starts =>
      rw [hstarts] at hexec
      obtain ⟨r₁, w₁, hfirst, hrest⟩ := exec_bind_iff.mp hexec
      have hmem := hsub event List.mem_cons_self
      have hsame : ∀ start_ms ∈ starts, start_ms ∈ event.starts fuel now := by
        intro start hstart
        unfold ParsedEvent.starts
        rw [hstarts]
        exact hstart
      obtain ⟨hrestamped, hnext⟩ := exec_again_occurrences h hall hmem (hne event hmem) hsame hfirst
      rcases r₁ with e | s₁
      · obtain ⟨-, rfl⟩ := exec_done_iff.mp hrest
        exact hrestamped
      · obtain ⟨hlinked, hall⟩ := hnext s₁ rfl
        exact hrestamped.trans
          (ih hlinked hall (fun e he => hsub e (List.mem_cons_of_mem _ he)) hrest)

/-! ## Whole imports -/

theorem getElem?_learn (by_uid : Table String EventDoc) (doc : EventDoc) (uid : String) :
    (learn by_uid doc)[uid]? = if doc.ics_uid = some uid then some doc else by_uid[uid]? := by
  unfold learn
  cases doc.ics_uid with
  | none => rfl
  | some uid' =>
    dsimp only
    rw [Table.getElem?_insert_ite]
    simp

/-- A document that is known was learned, and a UID that was learned is known. -/
theorem foldl_learn (existing : List EventDoc) (by_uid : Table String EventDoc) (uid : String) :
    (∀ doc, (existing.foldl learn by_uid)[uid]? = some doc →
      (doc ∈ existing ∧ doc.ics_uid = some uid) ∨ by_uid[uid]? = some doc) ∧
    ((∃ doc ∈ existing, doc.ics_uid = some uid) ∨ (by_uid[uid]?).isSome = true →
      ((existing.foldl learn by_uid)[uid]?).isSome = true) := by
  induction existing generalizing by_uid with
  | nil =>
    refine ⟨fun doc h => .inr h, ?_⟩
    rintro (⟨doc, hdoc, -⟩ | h)
    · cases hdoc
    · exact h
  | cons head existing ih =>
    rw [List.foldl_cons]
    obtain ⟨hlearned, hknown⟩ := ih (learn by_uid head)
    rw [getElem?_learn] at hlearned hknown
    constructor
    · intro doc hdoc
      rcases hlearned doc hdoc with ⟨hmem, huid⟩ | hdoc
      · exact .inl ⟨List.mem_cons_of_mem _ hmem, huid⟩
      · split_ifs at hdoc with huid
        · obtain rfl := Option.some.inj hdoc
          exact .inl ⟨List.mem_cons_self, huid⟩
        · exact .inr hdoc
    · rintro (⟨doc, hdoc, huid⟩ | hsome)
      · rcases List.mem_cons.mp hdoc with rfl | hdoc
        · refine hknown (.inr ?_)
          rw [if_pos huid]
          rfl
        · exact hknown (.inl ⟨doc, hdoc, huid⟩)
      · refine hknown (.inr ?_)
        split_ifs
        · rfl
        · exact hsome

/-- At most one stored event has a UID of the payload. -/
def OnePerUid (uids : List String) (w : World) : Prop :=
  ∀ uid ∈ uids, ∀ doc doc' : EventDoc, w.docs[doc.id]? = some doc → w.docs[doc'.id]? = some doc' →
    doc.ics_uid = some uid → doc'.ics_uid = some uid → doc = doc'

theorem Linked.onePerUid (h : Linked uids s w) : OnePerUid uids w := by
  intro uid huid doc doc' hdoc hdoc' hics hics'
  have hknown := h.known uid doc huid hdoc hics
  have hknown' := h.known uid doc' huid hdoc' hics'
  exact Option.some.inj (hknown.symm.trans hknown')

theorem linked_start {existing : List EventDoc} (hcounted : w.Counted) (hone : OnePerUid uids w)
    (hlist : ∀ doc, doc ∈ existing ↔ w.docs[doc.id]? = some doc) :
    Linked uids (.start existing) w := by
  refine ⟨hcounted, fun uid doc hdoc => ?_, fun uid doc huid hdoc hics => ?_⟩
  · rcases (foldl_learn existing ∅ uid).1 doc hdoc with ⟨hmem, hics⟩ | hdoc
    · exact ⟨(hlist doc).mp hmem, hics⟩
    · simp at hdoc
  · have hsome := (foldl_learn existing ∅ uid).2 (.inl ⟨doc, (hlist doc).mpr hdoc, hics⟩)
    obtain ⟨doc', hdoc'⟩ := Option.isSome_iff_exists.mp hsome
    rcases (foldl_learn existing ∅ uid).1 doc' hdoc' with ⟨hmem, hics'⟩ | hnone
    · obtain rfl := hone uid huid doc doc' hdoc ((hlist doc').mp hmem) hics hics'
      exact hdoc'
    · simp at hnone

/-- What an import that succeeds has stored and knows. -/
theorem exec_first_import {result : ActionResult} (hcounted : w.Counted)
    (hnodup : (parsed.map ParsedEvent.uid).Nodup) (hne : ∀ event ∈ parsed, event.uid ≠ "")
    (hnew : ∀ event ∈ parsed, ∀ doc : EventDoc, w.docs[doc.id]? = some doc → doc.ics_uid ≠ some event.uid)
    (hexec : Exec Alone w (import_at fuel parsed now) (some (.ok result)) w') :
    ∃ s, Linked (parsed.map ParsedEvent.uid) s w' ∧
      ∀ event ∈ parsed, event.starts fuel now = [] ∨
        ∃ last ∈ event.starts fuel now, Fresh s event last := by
  unfold import_at at hexec
  obtain ⟨existing, w₁, hlist, hrest⟩ := exec_bind_iff.mp hexec
  obtain ⟨hdocs, hnext, hexisting⟩ := exec_list hlist
  rcases existing with e | existing
  · have hfailed := (exec_done_iff.mp hrest).1
    cases hfailed
  obtain ⟨r, w₂, hevents, hend⟩ := exec_bind_iff.mp hrest
  rcases r with _ | (e | s)
  · have hfailed := (exec_done_iff.mp hend).1
    cases hfailed
  · have hfailed := (exec_done_iff.mp hend).1
    cases hfailed
  obtain ⟨-, rfl⟩ := exec_done_iff.mp hend
  have hcounted₁ : w₁.Counted := by
    unfold World.Counted
    rw [hdocs, hnext]
    exact hcounted
  have hone : OnePerUid (parsed.map ParsedEvent.uid) w₁ := by
    intro uid huid doc doc' hdoc _ hics
    obtain ⟨event, hevent, rfl⟩ := List.mem_map.mp huid
    rw [hdocs] at hdoc
    exact absurd hics (hnew event hevent doc hdoc)
  have hlinked : Linked (parsed.map ParsedEvent.uid) (.start existing) w₁ := by
    refine linked_start hcounted₁ hone fun doc => ?_
    rw [hdocs]
    exact hexisting existing rfl doc
  obtain ⟨hlinked, hall, -⟩ := exec_first_events hlinked hne hnodup hevents
  exact ⟨s, hlinked, hall⟩

/-- What the import does to a store in which each of its occurrences is up to date. -/
theorem exec_again_import {result : Option (Except String ActionResult)} (hne : ∀ event ∈ parsed, event.uid ≠ "")
    (h : Linked (parsed.map ParsedEvent.uid) s w) (hall : AllFresh fuel now parsed s)
    (hexec : Exec Alone w (import_at fuel parsed now) result w') : w.Restamped w' := by
  unfold import_at at hexec
  obtain ⟨existing, w₁, hlist, hrest⟩ := exec_bind_iff.mp hexec
  obtain ⟨hdocs, hnext, hexisting⟩ := exec_list hlist
  have hsame : w.Restamped w₁ := by
    refine ⟨hnext, fun id => ?_⟩
    rw [hdocs]
  rcases existing with e | existing
  · obtain ⟨-, rfl⟩ := exec_done_iff.mp hrest
    exact hsame
  obtain ⟨r, w₂, hevents, hend⟩ := exec_bind_iff.mp hrest
  obtain rfl : w' = w₂ := by
    rcases r with _ | (e | s)
    · exact (exec_done_iff.mp hend).2
    · exact (exec_done_iff.mp hend).2
    · exact (exec_done_iff.mp hend).2
  have hlinked₁ : Linked (parsed.map ParsedEvent.uid) s w₁ := by
    refine ⟨?_, ?_, ?_⟩
    · unfold World.Counted
      rw [hdocs, hnext]
      exact h.counted
    · rw [hdocs]
      exact h.stored
    · rw [hdocs]
      exact h.known
  have hstart : Linked (parsed.map ParsedEvent.uid) (.start existing) w₁ := by
    refine linked_start hlinked₁.counted hlinked₁.onePerUid fun doc => ?_
    rw [hdocs]
    exact hexisting existing rfl doc
  have hall₁ : AllFresh fuel now parsed (.start existing) := by
    intro event hevent start hstarts
    obtain ⟨doc, hdoc, hfresh⟩ := hall event hevent start hstarts
    obtain ⟨hstored, hics⟩ := hlinked₁.stored event.uid doc hdoc
    exact ⟨doc, hstart.known event.uid doc (List.mem_map_of_mem hevent) hstored hics, hfresh⟩
  exact hsame.trans (exec_again_events hstart hall₁ (fun _ h => h) hne hevents)

/-- An event that begins at the time of the import. -/
def standup (rrule : Option String) : ParsedEvent where
  title := "standup"
  description := ""
  start_ms := 1755600000000
  end_ms := none
  all_day := false
  remind_before_ms := none
  uid := "standup@team"
  rrule

/-- What an import makes of the empty store, when all its calls succeed. -/
def importStandup (rrule : Option String) : Option (Except String ActionResult) × World :=
  run (World.serveOk 1755600000000) (import_at 10 [standup rrule] 1755600000000) .empty

theorem exec_importStandup (rrule : Option String) :
    Exec Alone .empty (import_at 10 [standup rrule] 1755600000000) (importStandup rrule).1
      (importStandup rrule).2 :=
  exec_serveOk 1755600000000 _ .empty

theorem counted_empty : World.empty.Counted := by
  intro id doc hdoc
  change (∅ : Table String EventDoc)[id]? = some doc at hdoc
  simp at hdoc

end Calendar
