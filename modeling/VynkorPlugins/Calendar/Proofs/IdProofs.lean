import Mathlib
import VynkorPlugins.Calendar.Imports
import VynkorPlugins.Calendar.Proofs.ValidProofs

/-!
# Ids of events

A task creates an event only under an id that the counter has given it, and writes any other document for an
event that it has read. So an id stands for one event, also when the event is deleted while other tasks still
write it.
-/

namespace Calendar

open Async Transition

namespace Ids

/-- The ids under which a task may still create an event, and the events that it knows. -/
structure Held where
  fresh : List String
  known : List Identity

/-- The task has read some documents. -/
def Held.learn (s : Held) (docs : List EventDoc) : Held :=
  { s with known := docs.map EventDoc.identity ++ s.known }

/-- The task has written a document, whether or not it is stored. -/
def Held.written (s : Held) (doc : EventDoc) : Held where
  fresh := s.fresh.filter (· ≠ doc.id)
  known := doc.identity :: s.known

variable {s : Held} {now : Int64} {fuel : Nat}

theorem mem_learn {docs : List EventDoc} {doc : EventDoc} (h : doc ∈ docs) :
    doc.identity ∈ (s.learn docs).known :=
  List.mem_append_left _ (List.mem_map_of_mem h)

/-- A task creates events under fresh ids, and writes the events that it knows. -/
def Allowed (s : Held) : Eff → Prop
  | .db_set writer doc => doc.id ∈ s.fresh ∨ doc.identity ∈ s.known ∧ writer ≠ .event_create
  | _ => True

def Next (s : Held) : (e : Eff) → e.Answer → Held → Prop
  | .db_incr, .ok n, s' => s' = { s with fresh := toString n :: s.fresh }
  | .db_get _, .ok found, s' => s' = s.learn found.toList
  | .db_batch_get _, .ok docs, s' => s' = s.learn docs
  | .db_set _ doc, _, s' => s' = s.written doc
  | _, _, s' => s' = s

def protocol : Protocol Eff Eff.Answer Held where
  allowed := Allowed
  next := Next

theorem obeys_list :
    Obeys protocol (fun s' r => ∀ docs, r = .ok docs → ∀ doc ∈ docs, doc.identity ∈ s'.known) s
      Db.list := by
  unfold Db.list
  refine ⟨trivial, ?_⟩
  rintro (e | keys) s' rfl
  · rintro docs ⟨⟩
  show Obeys _ _ _ (if keys = [] then _ else _)
  split_ifs
  · rintro docs ⟨⟩ doc hdoc
    cases hdoc
  · refine ⟨trivial, ?_⟩
    rintro (e | docs) s'' hs
    · rintro docs ⟨⟩
    · rintro docs' h
      obtain rfl := Except.ok.inj h
      obtain rfl := hs
      exact fun doc hdoc => mem_learn hdoc

theorem obeys_event_create (e : NewEvent) :
    Obeys protocol (fun _ _ => True) s (event_create e) := by
  unfold event_create
  refine ⟨trivial, ?_⟩
  rintro (err | id) s' hs
  · trivial
  obtain rfl := hs
  refine ⟨trivial, ?_⟩
  rintro now s'' rfl
  refine ⟨.inl List.mem_cons_self, ?_⟩
  rintro (err | _) - -
  · trivial
  · trivial

theorem obeys_event_update (id : String) (patch : EventPatch) :
    Obeys protocol (fun _ _ => True) s (event_update id patch) := by
  unfold event_update
  refine ⟨trivial, ?_⟩
  rintro (err | (_ | doc)) s' hs
  · trivial
  · trivial
  obtain rfl := hs
  dsimp only [Async.bind]
  cases happly : patch.apply doc with
  | error err => trivial
  | ok updated =>
    refine ⟨trivial, ?_⟩
    rintro now s'' rfl
    obtain ⟨rfl, -⟩ := EventPatch.apply_eq_ok happly
    -- a patch leaves the identity of the document
    refine ⟨.inr ⟨List.mem_cons_self, by rintro ⟨⟩⟩, ?_⟩
    rintro (err | _) - -
    · trivial
    · trivial

/-! ## Imports -/

/-- The import may write the documents that it knows. -/
def Known (known : List Identity) (s : Import) : Prop :=
  ∀ (uid : String) (doc : EventDoc), s.by_uid[uid]? = some doc → doc.identity ∈ known

theorem known_foldl {known : List Identity} {existing : List EventDoc} {by_uid : Table String EventDoc}
    (h : ∀ doc ∈ existing, doc.identity ∈ known)
    (hby : ∀ (uid : String) (doc : EventDoc), by_uid[uid]? = some doc → doc.identity ∈ known)
    (uid : String) (doc : EventDoc) (hdoc : (existing.foldl learn by_uid)[uid]? = some doc) :
    doc.identity ∈ known := by
  induction existing generalizing by_uid with
  | nil => exact hby uid doc hdoc
  | cons head existing ih =>
    rw [List.foldl_cons] at hdoc
    refine ih (fun doc hdoc => h doc (List.mem_cons_of_mem _ hdoc)) (fun uid' doc' hstored => ?_) hdoc
    unfold learn at hstored
    cases huid : head.ics_uid with
    | none =>
      rw [huid] at hstored
      exact hby uid' doc' hstored
    | some learned =>
      rw [huid] at hstored
      dsimp only at hstored
      rw [Table.getElem?_insert_ite] at hstored
      split_ifs at hstored
      · obtain rfl := Option.some.inj hstored
        exact h head List.mem_cons_self
      · exact hby uid' doc' hstored

variable {i : Import}

theorem Known.written {doc : EventDoc} (h : Known s.known i) : Known (s.written doc).known i :=
  fun uid doc hdoc => List.mem_cons_of_mem _ (h uid doc hdoc)

theorem Known.insert {known : List Identity} {uid : String} {doc : EventDoc} (h : Known known i)
    (hdoc : doc.identity ∈ known) (uid' : String) (doc' : EventDoc)
    (hstored : (i.by_uid.insert uid doc)[uid']? = some doc') : doc'.identity ∈ known := by
  rw [Table.getElem?_insert_ite] at hstored
  split_ifs at hstored
  · obtain rfl := Option.some.inj hstored
    exact hdoc
  · exact h uid' doc' hstored

theorem obeys_import_occurrence {event : ParsedEvent} {start_ms : Int64} (h : Known s.known i) :
    Obeys protocol (fun s' r => ∀ i', r = .ok i' → Known s'.known i') s
      (import_occurrence now event start_ms i) := by
  unfold import_occurrence
  split_ifs
  · rintro i' ⟨⟩
  cases hknown : i.known event with
  | some doc =>
    have hdoc : doc.identity ∈ s.known := by
      unfold Import.known at hknown
      split_ifs at hknown
      exact h event.uid doc hknown
    refine ⟨trivial, ?_⟩
    rintro updated_at_ms s' rfl
    refine ⟨.inr ⟨hdoc, by rintro ⟨⟩⟩, ?_⟩
    rintro (err | _) s'' rfl
    · rintro i' ⟨⟩
    · rintro i' hi'
      obtain rfl := Except.ok.inj hi'
      exact h.written.insert List.mem_cons_self
  | none =>
    refine ⟨trivial, ?_⟩
    rintro (err | id) s' hs
    · rintro i' ⟨⟩
    obtain rfl := hs
    refine ⟨.inl List.mem_cons_self, ?_⟩
    rintro (err | _) s'' rfl
    · rintro i' ⟨⟩
    · rintro i' hi'
      obtain rfl := Except.ok.inj hi'
      unfold Known Import.added
      dsimp only
      split_ifs
      · exact Known.written h
      · exact (Known.written h).insert List.mem_cons_self

theorem obeys_import_occurrences {event : ParsedEvent} {starts : List Int64} (h : Known s.known i) :
    Obeys protocol (fun s' r => ∀ i', r = .ok i' → Known s'.known i') s
      (import_occurrences now event starts i) := by
  induction starts generalizing i s with
  | nil =>
    rintro i' hi'
    obtain rfl := Except.ok.inj hi'
    exact h
  | cons start_ms starts ih =>
    unfold import_occurrences
    refine (obeys_import_occurrence h).bind ?_
    rintro s' (err | i') hi'
    · rintro i'' ⟨⟩
    · exact ih (hi' i' rfl)

theorem obeys_import_events {events : List ParsedEvent} (h : Known s.known i) :
    Obeys protocol (fun _ _ => True) s (import_events fuel now events i) := by
  induction events generalizing i s with
  | nil => trivial
  | cons event events ih =>
    unfold import_events
    cases occurrences fuel event (window_start now) (window_end now) with
    | none => trivial
    | some starts =>
      refine (obeys_import_occurrences h).bind ?_
      rintro s' (err | i') hi'
      · trivial
      · exact ih (hi' i' rfl)

theorem obeys_import_ics {c : Crates} {ics_base64 : String} :
    Obeys protocol (fun _ _ => True) s (import_ics c fuel ics_base64) := by
  unfold import_ics
  cases decode_ics c ics_base64 with
  | error err => trivial
  | ok parsed =>
    refine ⟨trivial, ?_⟩
    rintro now s' rfl
    show Obeys _ _ _ (import_at fuel parsed now)
    unfold import_at
    refine obeys_list.bind ?_
    rintro s' (err | existing) hexisting
    · trivial
    have hstart : Known s'.known (.start existing) :=
      known_foldl (hexisting existing rfl) fun uid doc hdoc => by simp at hdoc
    refine (obeys_import_events hstart).bind ?_
    rintro s'' (_ | (err | i)) -
    · trivial
    · trivial
    · trivial

/-! ## Scans -/

theorem obeys_fire_all {notify_enabled : Bool} {fires : List DueFire}
    (h : ∀ fire ∈ fires, fire.event.identity ∈ s.known) :
    Obeys protocol (fun _ _ => True) s (fire_all notify_enabled now fires) := by
  induction fires generalizing s with
  | nil => trivial
  | cons fire fires ih =>
    have hfire : Obeys protocol (fun s' _ => s.known ⊆ s'.known) s (fire_due notify_enabled now fire) := by
      unfold fire_due
      refine ⟨.inr ⟨h fire List.mem_cons_self, by rintro ⟨⟩⟩, ?_⟩
      rintro (err | _) s' rfl
      · exact List.subset_cons_self _ _
      refine ⟨trivial, ?_⟩
      rintro - s' rfl
      show Obeys _ _ _ (if notify_enabled then _ else _)
      split_ifs
      · refine ⟨trivial, ?_⟩
        rintro r s' rfl
        exact List.subset_cons_self _ _
      · exact List.subset_cons_self _ _
    unfold fire_all
    refine hfire.bind ?_
    rintro s' (err | _) hmore
    · trivial
    · exact ih fun fire hfire => hmore (h fire (List.mem_cons_of_mem _ hfire))

theorem obeys_scan_due {notify_enabled : Bool} :
    Obeys protocol (fun _ _ => True) s (scan_due notify_enabled now) := by
  unfold scan_due
  refine obeys_list.bind ?_
  rintro s' (err | docs) hdocs
  · trivial
  have hknown : ∀ fire ∈ due_events docs now, fire.event.identity ∈ s'.known :=
    fun fire hfire => hdocs docs rfl fire.event (of_mem_due_events hfire).1
  refine (obeys_fire_all hknown).bind ?_
  rintro s'' (err | _) -
  · trivial
  · trivial

/-! ## Tasks -/

variable {c : Crates}

theorem obeys_handle_action (params : Params) :
    Obeys protocol (fun _ _ => True) s (handle_action c fuel params) := by
  unfold handle_action
  cases parse_request c params with
  | error err => trivial
  | ok req =>
    cases req with
    | Create e => exact (obeys_event_create e).bind fun _ _ _ => trivial
    | Get id =>
      refine ⟨trivial, ?_⟩
      rintro (err | doc) s' -
      · trivial
      · trivial
    | Update id patch => exact (obeys_event_update id patch).bind fun _ _ _ => trivial
    | Delete id =>
      refine ⟨trivial, ?_⟩
      rintro (err | deleted) s' -
      · trivial
      · trivial
    | Import ics_base64 => exact obeys_import_ics
    | Export =>
      show Obeys _ _ _ export_ics
      unfold export_ics
      refine obeys_list.bind ?_
      rintro s' (err | events) -
      · trivial
      dsimp only
      split
      · trivial
      · trivial

theorem obeys_task (config : Config) (spawn : Spawn) :
    Obeys protocol (fun _ _ => True) s (spawn.task c config) := by
  cases spawn with
  | tick =>
    refine ⟨trivial, ?_⟩
    rintro now s' rfl
    exact obeys_scan_due.bind fun _ _ _ => trivial
  | request params =>
    refine (obeys_handle_action params).bind ?_
    rintro s' (_ | (err | result)) -
    · trivial
    · exact ⟨trivial, fun _ _ _ => trivial⟩
    · refine ⟨trivial, ?_⟩
      rintro - s'' -
      dsimp only
      split
      · exact ⟨trivial, fun _ _ _ => trivial⟩
      · trivial

/-! ## Events that have been created -/

/-- The events that have been created so far, each under an id of its own, and those that the tasks may still
    create. -/
structure IdsInv (born : Set Identity) (g : Nat → Held) (w : World) : Prop where
  one : ∀ a ∈ born, ∀ b ∈ born, a.id = b.id → a = b
  counted : ∀ a ∈ born, ∃ n ≤ w.next_id, a.id = toString n
  known : ∀ i, ∀ a ∈ (g i).known, a ∈ born
  stored : ∀ (id : String) (doc : EventDoc), w.docs[id]? = some doc → doc.identity ∈ born
  fresh : ∀ i, ∀ id ∈ (g i).fresh, (∃ n ≤ w.next_id, id = toString n) ∧ ∀ a ∈ born, a.id ≠ id
  apart : ∀ i j id, id ∈ (g i).fresh → id ∈ (g j).fresh → i = j

variable {born : Set Identity} {g : Nat → Held} {w w' : World} {i : Nat} {doc : EventDoc}

/-- A task gets to know events, or a new id, and documents are at most deleted. -/
theorem IdsInv.keep (h : IdsInv born g w)
    (hdocs : ∀ (id : String) (doc : EventDoc), w'.docs[id]? = some doc → w.docs[id]? = some doc)
    (hnext : w.next_id ≤ w'.next_id) (hknown : ∀ a ∈ s.known, a ∈ born)
    (hfresh : ∀ id ∈ s.fresh, id ∈ (g i).fresh ∨ id = toString w'.next_id ∧ w.next_id < w'.next_id) :
    IdsInv born (Function.update g i s) w' := by
  have hmore {id : String} (hid : ∃ n ≤ w.next_id, id = toString n) : ∃ n ≤ w'.next_id, id = toString n := by
    obtain ⟨n, hn, rfl⟩ := hid
    exact ⟨n, hn.trans hnext, rfl⟩
  have hnew {id : String} (hid : ∃ n ≤ w.next_id, id = toString n) (hlt : w.next_id < w'.next_id) :
      id ≠ toString w'.next_id := by
    obtain ⟨n, hn, rfl⟩ := hid
    intro heq
    have hsame : n = w'.next_id := Nat.repr_injective heq
    omega
  refine ⟨h.one, fun a ha => hmore (h.counted a ha), fun j a ha => ?_,
    fun id doc hdoc => h.stored id doc (hdocs id doc hdoc), fun j id hid => ?_, fun j k id hj hk => ?_⟩
  · rcases eq_or_ne j i with rfl | hne
    · rw [Function.update_self] at ha
      exact hknown a ha
    · rw [Function.update_of_ne hne] at ha
      exact h.known j a ha
  · have hold (j : Nat) (hid : id ∈ (g j).fresh) :
        (∃ n ≤ w'.next_id, id = toString n) ∧ ∀ a ∈ born, a.id ≠ id :=
      ⟨hmore (h.fresh j id hid).1, (h.fresh j id hid).2⟩
    rcases eq_or_ne j i with rfl | hne
    · rw [Function.update_self] at hid
      rcases hfresh id hid with hid | ⟨rfl, hlt⟩
      · exact hold j hid
      · exact ⟨⟨_, Nat.le_refl _, rfl⟩, fun a ha => hnew (h.counted a ha) hlt⟩
    · rw [Function.update_of_ne hne] at hid
      exact hold j hid
  · -- the new id is in the hands of no other task
    have hother (j : Nat) (hid : id ∈ s.fresh) (hj : id ∈ (g j).fresh) : i = j := by
      rcases hfresh id hid with hid | ⟨rfl, hlt⟩
      · exact h.apart i j id hid hj
      · exact absurd rfl (hnew (h.fresh j _ hj).1 hlt)
    rcases eq_or_ne i j with rfl | hij <;> rcases eq_or_ne i k with rfl | hik
    · rfl
    · rw [Function.update_self] at hj
      rw [Function.update_of_ne hik.symm] at hk
      exact hother k hj hk
    · rw [Function.update_of_ne hij.symm] at hj
      rw [Function.update_self] at hk
      exact (hother j hk hj).symm
    · rw [Function.update_of_ne hij.symm] at hj
      rw [Function.update_of_ne hik.symm] at hk
      exact h.apart j k id hj hk

theorem IdsInv.same (h : IdsInv born g w) (hdocs : w'.docs = w.docs) (hnext : w.next_id ≤ w'.next_id) :
    IdsInv born (Function.update g i (g i)) w' :=
  h.keep (fun _ _ hdoc => hdocs ▸ hdoc) hnext (h.known i) fun _ hid => .inl hid

/-- A document that is written is one of an event that has been created, or its id was fresh. -/
theorem IdsInv.write (h : IdsInv born g w) (hdoc : doc.id ∈ (g i).fresh ∨ doc.identity ∈ (g i).known)
    (hw : w' = w ∨ w' = w.put doc) :
    IdsInv (insert doc.identity born) (Function.update g i ((g i).written doc)) w' := by
  have hnext : w'.next_id = w.next_id := by
    rcases hw with rfl | rfl
    · rfl
    · rfl
  have hborn (a : Identity) (ha : a ∈ born) (hid : a.id = doc.id) : a = doc.identity := by
    rcases hdoc with hfresh | hknown
    · exact absurd hid ((h.fresh i doc.id hfresh).2 a ha)
    · exact h.one a ha _ (h.known i _ hknown) hid
  have hcounted : ∃ n ≤ w.next_id, doc.id = toString n := by
    rcases hdoc with hfresh | hknown
    · exact (h.fresh i doc.id hfresh).1
    · exact h.counted _ (h.known i _ hknown)
  have hfresh {j : Nat} {id : String} (hid : id ∈ (Function.update g i ((g i).written doc) j).fresh) :
      id ∈ (g j).fresh ∧ (j = i → doc.id ≠ id) := by
    rcases eq_or_ne j i with rfl | hne
    · rw [Function.update_self] at hid
      obtain ⟨hid, hne⟩ := List.mem_filter.mp hid
      exact ⟨hid, fun _ heq => of_decide_eq_true hne heq.symm⟩
    · rw [Function.update_of_ne hne] at hid
      exact ⟨hid, fun heq => absurd heq hne⟩
  refine ⟨?_, ?_, fun j a ha => ?_, fun id doc' hdoc' => ?_, fun j id hid => ?_, fun j k id hj hk =>
    h.apart j k id (hfresh hj).1 (hfresh hk).1⟩
  · rintro a (rfl | ha) b (rfl | hb) hid
    · rfl
    · exact (hborn b hb hid.symm).symm
    · exact hborn a ha hid
    · exact h.one a ha b hb hid
  · rintro a (rfl | ha)
    · rw [hnext]
      exact hcounted
    · rw [hnext]
      exact h.counted a ha
  · rcases eq_or_ne j i with rfl | hne
    · rw [Function.update_self] at ha
      rcases List.mem_cons.mp ha with rfl | ha
      · exact .inl rfl
      · exact .inr (h.known j a ha)
    · rw [Function.update_of_ne hne] at ha
      exact .inr (h.known j a ha)
  · rcases hw with rfl | rfl
    · exact .inr (h.stored id doc' hdoc')
    · rw [World.getElem?_put] at hdoc'
      split_ifs at hdoc'
      · obtain rfl := Option.some.inj hdoc'
        exact .inl rfl
      · exact .inr (h.stored id doc' hdoc')
  · obtain ⟨hid, hne⟩ := hfresh hid
    obtain ⟨hcount, hunborn⟩ := h.fresh j id hid
    refine ⟨hnext ▸ hcount, ?_⟩
    rintro a (rfl | ha)
    · rintro rfl
      -- the id that is written is fresh for nobody else
      rcases hdoc with hmine | hknown
      · exact hne (h.apart j i doc.id hid hmine) rfl
      · exact hunborn _ (h.known i _ hknown) rfl
    · exact hunborn a ha

/-- One effect of a task. -/
theorem idsInv_act {e : Eff} {r : e.Answer} (h : IdsInv born g w) (hallowed : Allowed (g i) e)
    (hw : Handle i w e r w') :
    ∃ s, Next (g i) e r s ∧ ∃ born', born ⊆ born' ∧ IdsInv born' (Function.update g i s) w' := by
  obtain ⟨rfl, rfl⟩ := Prod.mk.inj hw
  have hsame {w' : World} (hdocs : w'.docs = w.docs) (hnext : w.next_id ≤ w'.next_id) :
      ∃ born', born ⊆ born' ∧ IdsInv born' (Function.update g i (g i)) w' :=
    ⟨born, fun _ ha => ha, h.same hdocs hnext⟩
  have hlearn (docs : List EventDoc) (hdocs : ∀ doc ∈ docs, w.docs[doc.id]? = some doc) :
      ∃ born', born ⊆ born' ∧ IdsInv born' (Function.update g i ((g i).learn docs)) w := by
    refine ⟨born, fun _ ha => ha, h.keep (fun _ _ hdoc => hdoc) (Nat.le_refl _) (fun a ha => ?_)
      fun _ hid => .inl hid⟩
    rcases List.mem_append.mp ha with ha | ha
    · obtain ⟨doc, hdoc, rfl⟩ := List.mem_map.mp ha
      exact h.stored doc.id doc (hdocs doc hdoc)
    · exact h.known i a ha
  cases e with
  | now => exact ⟨_, rfl, hsame rfl (Nat.le_refl _)⟩
  | db_keys => exact ⟨_, rfl, hsame rfl (Nat.le_refl _)⟩
  | publish_due fire => exact ⟨_, rfl, hsame rfl (Nat.le_refl _)⟩
  | notify_send message => exact ⟨_, rfl, hsame rfl (Nat.le_refl _)⟩
  | reply result => exact ⟨_, rfl, hsame rfl (Nat.le_refl _)⟩
  | publish_changed event => exact ⟨_, rfl, hsame rfl (Nat.le_refl _)⟩
  | db_batch_get keys =>
    show ∃ s, Next (g i) (.db_batch_get keys) (w.fate.answer (w.rows keys)) s ∧
      ∃ born', born ⊆ born' ∧ IdsInv born' (Function.update g i s) w
    cases hr : w.fate.answer (w.rows keys) with
    | error err => exact ⟨_, rfl, hsame rfl (Nat.le_refl _)⟩
    | ok docs =>
      obtain ⟨-, rfl⟩ := Fate.answer_eq_ok_iff.mp hr
      exact ⟨_, rfl, hlearn _ fun doc hdoc => w.mem_rows hdoc⟩
  | db_get id' =>
    show ∃ s, Next (g i) (.db_get id') (w.fate.answer w.docs[id']?) s ∧
      ∃ born', born ⊆ born' ∧ IdsInv born' (Function.update g i s) w
    cases hr : w.fate.answer w.docs[id']? with
    | error err => exact ⟨_, rfl, hsame rfl (Nat.le_refl _)⟩
    | ok found =>
      obtain ⟨-, rfl⟩ := Fate.answer_eq_ok_iff.mp hr
      refine ⟨_, rfl, hlearn _ fun doc hdoc => ?_⟩
      have hstored : w.docs[id']? = some doc := Option.mem_toList.mp hdoc
      rw [w.keyed id' doc hstored]
      exact hstored
  | db_incr =>
    show ∃ s, Next (g i) .db_incr (w.fate.answer (w.next_id + 1)) s ∧ ∃ born', born ⊆ born' ∧
      IdsInv born' (Function.update g i s) (w.fate.write w { w with next_id := w.next_id + 1 })
    rw [Fate.write_eq]
    cases hr : w.fate.answer (w.next_id + 1) with
    | error err =>
      refine ⟨_, rfl, ?_⟩
      split_ifs
      · exact hsame rfl (Nat.le_succ _)
      · exact hsame rfl (Nat.le_refl _)
    | ok n =>
      obtain ⟨hfate, rfl⟩ := Fate.answer_eq_ok_iff.mp hr
      rw [hfate]
      refine ⟨_, rfl, born, fun _ ha => ha, h.keep (fun _ _ hdoc => hdoc) (Nat.le_succ _) (h.known i)
        fun id hid => ?_⟩
      rcases List.mem_cons.mp hid with rfl | hid
      · exact .inr ⟨rfl, Nat.lt_succ_self _⟩
      · exact .inl hid
  | db_set writer doc =>
    refine ⟨_, rfl, _, Set.subset_insert _ _, h.write (hallowed.imp_right And.left) ?_⟩
    show w.fate.write w (w.put doc) = w ∨ w.fate.write w (w.put doc) = w.put doc
    rw [Fate.write_eq]
    split_ifs
    · exact .inr rfl
    · exact .inl rfl
  | db_delete id' =>
    refine ⟨_, rfl, ?_⟩
    show ∃ born', born ⊆ born' ∧ IdsInv born' _ (w.fate.write w (w.delete id'))
    rw [Fate.write_eq]
    split_ifs
    · refine ⟨born, fun _ ha => ha, h.keep (fun id doc hdoc => ?_) (Nat.le_refl _) (h.known i)
        fun _ hid => .inl hid⟩
      rw [World.getElem?_delete] at hdoc
      split_ifs at hdoc
      exact hdoc
    · exact hsame rfl (Nat.le_refl _)

/-! ## Runs -/

variable {trace : List TaskLabel} {p p' : Tasks}

/-- The events that have been created stay those that they are, and others join them. -/
theorem idsInv_run (h : IdsInv born g p.world)
    (hobeys : ∀ i, Obeys protocol (fun _ _ => True) (g i) (p.tasks i)) (hrun : Run TaskStep p trace p') :
    ∃ born' g', born ⊆ born' ∧ IdsInv born' g' p'.world ∧
      ∀ i, Obeys protocol (fun _ _ => True) (g' i) (p'.tasks i) := by
  have hinv : PoolInv protocol (fun _ _ _ => True)
      (fun g _ w => ∃ born', born ⊆ born' ∧ IdsInv born' g w) trace p' := by
    refine hrun.invariant ⟨g, ⟨born, fun _ ha => ha, h⟩, hobeys⟩ fun trace p l p' hp hstep => ?_
    refine hp.step ?_ ?_ hstep
    · rintro g trace w i e r w' ⟨born', hmore, h⟩ hallowed hw
      obtain ⟨s, hs, born'', hmore', h'⟩ := idsInv_act h hallowed hw
      exact ⟨s, hs, born'', hmore.trans hmore', h'⟩
    · rintro g trace w l w' ⟨born', hmore, h⟩ rfl
      exact ⟨born', hmore, h.one, h.counted, h.known, h.stored, h.fresh, h.apart⟩
  obtain ⟨g', ⟨born', hmore, h'⟩, hobeys'⟩ := hinv
  exact ⟨born', g', hmore, h', hobeys'⟩

end Ids

/-- In every run from an empty store the ids of the stored events are the counter's, an event is created where
    nothing is stored, and all documents that are ever stored under an id are of one event. -/
theorem ids_stand_for_one_event {c : Crates} {config : Config} {spawn : Nat → Spawn} {w₀ : World}
    (hempty : w₀.docs = ∅) {trace : List TaskLabel} {p : Tasks}
    (hrun : Run TaskStep (.start c config spawn w₀) trace p) :
    p.world.Counted ∧
    (∀ i doc r p', TaskStep p (.act i (.db_set .event_create doc) r) p' → p.world.docs[doc.id]? = none) ∧
    ∀ trace' p', Run TaskStep p trace' p' → ∀ (id : String) (doc doc' : EventDoc),
      p.world.docs[id]? = some doc → p'.world.docs[id]? = some doc' → doc'.identity = doc.identity := by
  have hnone (id : String) (doc : EventDoc) : w₀.docs[id]? ≠ some doc := by
    rw [hempty]
    simp
  have hstart : Ids.IdsInv ∅ (fun _ => ⟨[], []⟩) (Tasks.start c config spawn w₀).world :=
    { one := fun _ ha => ha.elim
      counted := fun _ ha => ha.elim
      known := fun _ _ ha => absurd ha List.not_mem_nil
      stored := fun id doc hdoc => absurd hdoc (hnone id doc)
      fresh := fun _ _ hid => absurd hid List.not_mem_nil
      apart := fun _ _ _ hid => absurd hid List.not_mem_nil }
  obtain ⟨born, g, -, h, hobeys⟩ := Ids.idsInv_run hstart (fun i => Ids.obeys_task config (spawn i)) hrun
  refine ⟨fun id doc hdoc => ?_, fun i doc r p' hstep => ?_, fun trace' p' hrun' id doc doc' hdoc hdoc' => ?_⟩
  · obtain rfl := p.world.keyed id doc hdoc
    exact h.counted _ (h.stored _ doc hdoc)
  · cases hstep with
    | act htask hw =>
      have hi := hobeys i
      rw [htask] at hi
      rcases hi.1 with hfresh | ⟨-, hother⟩
      · cases hdoc : p.world.docs[doc.id]? with
        | none => rfl
        | some doc' =>
          exact absurd (p.world.keyed _ _ hdoc) ((h.fresh i doc.id hfresh).2 _ (h.stored _ _ hdoc))
      · exact absurd rfl hother
  · obtain ⟨born', g', hmore, h', -⟩ := Ids.idsInv_run h hobeys hrun'
    refine h'.one _ (h'.stored id doc' hdoc') _ (hmore (h.stored id doc hdoc)) ?_
    exact (p'.world.keyed id doc' hdoc').trans (p.world.keyed id doc hdoc).symm

theorem ids_stand_for_one_event_sample : ∃ r, runRemind (fun _ _ => True) 60000 = some r ∧
    (r.2.world.docs["1"]?.bind EventDoc.remind_before_ms) = some 60000 ∧ r.2.world.Counted := by
  have hsome : ((runRemind (fun _ _ => True) 60000).any fun r =>
      (r.2.world.docs["1"]?.bind EventDoc.remind_before_ms) = some 60000) = true := by
    decide
  obtain ⟨r, hr, hremind⟩ := (Option.any_eq_true _ _).mp hsome
  exact ⟨r, hr, of_decide_eq_true hremind,
    (ids_stand_for_one_event rfl ((run_runRemind hr).mono fun _ _ _ hl => hl.1)).1⟩

end Calendar
