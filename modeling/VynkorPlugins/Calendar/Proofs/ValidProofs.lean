import VynkorPlugins.Calendar.Reminders

/-!
# Every stored event is valid

A task writes what it has checked itself, or a valid document that it has read with valid members in place
of its own.
-/

namespace Calendar

open Async Transition Rust

/-! ## Checks -/

theorem check_size_eq_ok {field value : String} {max : Nat} {u : Unit} :
    check_size field value max = .ok u ↔ value.utf8ByteSize ≤ max :=
  reject_eq_ok.trans Nat.not_lt

theorem validate_start_eq_ok {start_ms : Int64} {u : Unit} :
    validate_start start_ms = .ok u ↔ 0 < start_ms :=
  reject_eq_ok.trans Int64.not_le

theorem validate_remind_cap_eq_ok {remind : Int64} {u : Unit} :
    validate_remind_cap remind = .ok u ↔ remind ≤ MAX_REMIND_BEFORE_MS :=
  reject_eq_ok.trans Int64.not_lt

theorem of_validate_times {start_ms : Int64} {end_ms remind : Option Int64} {u : Unit}
    (h : validate_times start_ms end_ms remind = .ok u) :
    0 < start_ms ∧ (∀ e ∈ end_ms, start_ms ≤ e) ∧ ∀ r ∈ remind, ValidRemind r := by
  unfold validate_times at h
  obtain ⟨_, hstart, h⟩ := bind_eq_ok.mp h
  obtain ⟨_, hend, h⟩ := bind_eq_ok.mp h
  obtain ⟨_, hremind, -⟩ := bind_eq_ok.mp h
  refine ⟨validate_start_eq_ok.mp hstart, fun e he => ?_, fun r hr => ?_⟩
  · obtain ⟨_, hle⟩ := check_of_checked hend e he
    exact Int64.not_lt.mp (reject_eq_ok.mp hle)
  · obtain ⟨_, hr⟩ := check_of_checked hremind r hr
    obtain ⟨_, hneg, hcap⟩ := bind_eq_ok.mp hr
    exact ⟨Int64.not_lt.mp (reject_eq_ok.mp hneg), validate_remind_cap_eq_ok.mp hcap⟩

theorem of_check_title {title : String} {u : Unit} (h : check_title title = .ok u) :
    ValidTitle title := by
  obtain ⟨_, hblank, hsize⟩ := bind_eq_ok.mp h
  exact ⟨reject_eq_ok.mp hblank, check_size_eq_ok.mp hsize⟩

theorem ValidTags.append {tags : List String} {tag : String} (h : ValidTags tags) (hnew : tag ∉ tags)
    (hroom : tags.length ≠ MAX_TAGS) (hne : tag ≠ "") (hsize : tag.utf8ByteSize ≤ MAX_TAG_BYTES) :
    ValidTags (tags ++ [tag]) := by
  refine ⟨?_, ?_, fun t ht => ?_⟩
  · refine List.nodup_append.mpr ⟨h.nodup, List.pairwise_singleton _ _, fun a ha b hb => ?_⟩
    obtain rfl := List.mem_singleton.mp hb
    rintro rfl
    exact hnew ha
  · have hle := h.length
    rw [List.length_append, List.length_singleton]
    omega
  · rcases List.mem_append.mp ht with ht | ht
    · exact h.tag t ht
    · obtain rfl := List.mem_singleton.mp ht
      exact ⟨hne, hsize⟩

theorem validTags_sanitize_from {raw out tags : List String} (hout : ValidTags out)
    (h : sanitize_from out raw = .ok tags) : ValidTags tags := by
  induction raw generalizing out with
  | nil =>
    obtain rfl := Except.ok.inj h
    exact hout
  | cons tag raw ih =>
    unfold sanitize_from at h
    dsimp only at h
    split at h
    · exact ih hout h
    rename_i hne
    split at h
    · cases h
    rename_i hsize
    split at h
    · exact ih hout h
    rename_i hnew
    split at h
    · cases h
    · rename_i hroom
      exact ih (hout.append hnew hroom hne (Nat.not_lt.mp hsize)) h

theorem validTags_sanitize {raw tags : List String} (h : sanitize_tags raw = .ok tags) :
    ValidTags tags :=
  validTags_sanitize_from ⟨List.nodup_nil, Nat.zero_le _, fun _ h => nomatch h⟩ h

/-! ## Requests -/

variable {c : Crates}

/-- What the parameters of an `event_create` have been checked for. -/
structure NewEvent.Valid (e : NewEvent) : Prop where
  title : ValidTitle e.title
  description : ValidDescription e.description
  start : 0 < e.start_ms
  end_ms : ∀ end_ms ∈ e.end_ms, e.start_ms ≤ end_ms
  remind : ∀ remind ∈ e.remind_before_ms, ValidRemind remind
  tags : ValidTags e.tags

theorem valid_of_parse_create {p e : NewEvent} (h : parse_create c p = .ok e) : e.Valid := by
  unfold parse_create at h
  obtain ⟨_, hblank, h⟩ := bind_eq_ok.mp h
  obtain ⟨_, htitle, h⟩ := bind_eq_ok.mp h
  obtain ⟨_, hdescription, h⟩ := bind_eq_ok.mp h
  obtain ⟨_, htimes, h⟩ := bind_eq_ok.mp h
  obtain ⟨rrule, -, h⟩ := bind_eq_ok.mp h
  obtain ⟨tags, htags, h⟩ := bind_eq_ok.mp h
  obtain rfl := Except.ok.inj h
  obtain ⟨hstart, hend, hremind⟩ := of_validate_times htimes
  exact
    { title := ⟨reject_eq_ok.mp hblank, check_size_eq_ok.mp htitle⟩
      description := check_size_eq_ok.mp hdescription
      start := hstart
      end_ms := hend
      remind := hremind
      tags := validTags_sanitize htags }

/-- What the parameters of an `event_update` have been checked for. -/
structure EventPatch.Checked (p : EventPatch) : Prop where
  title : ∀ title ∈ p.title, ValidTitle title
  description : ∀ description ∈ p.description, ValidDescription description
  start : ∀ start_ms ∈ p.start_ms, 0 < start_ms
  remind : ∀ remind ∈ p.remind_before_ms, remind ≤ MAX_REMIND_BEFORE_MS
  tags : ∀ tags ∈ p.tags, ValidTags tags

theorem checked_of_parse_patch {p p' : EventPatch} (h : parse_patch c p = .ok p') : p'.Checked := by
  unfold parse_patch at h
  obtain ⟨rrule, -, h⟩ := bind_eq_ok.mp h
  obtain ⟨_, -, h⟩ := bind_eq_ok.mp h
  obtain ⟨_, htitle, h⟩ := bind_eq_ok.mp h
  obtain ⟨_, hdescription, h⟩ := bind_eq_ok.mp h
  obtain ⟨_, hstart, h⟩ := bind_eq_ok.mp h
  obtain ⟨_, hremind, h⟩ := bind_eq_ok.mp h
  obtain ⟨tags, htags, h⟩ := bind_eq_ok.mp h
  obtain rfl := Except.ok.inj h
  refine ⟨fun t ht => ?_, fun d hd => ?_, fun s hs => ?_, fun r hr => ?_, fun ts hts => ?_⟩
  · obtain ⟨_, ht⟩ := check_of_checked htitle t ht
    exact of_check_title ht
  · obtain ⟨_, hd⟩ := check_of_checked hdescription d hd
    exact check_size_eq_ok.mp hd
  · obtain ⟨_, hs⟩ := check_of_checked hstart s hs
    exact validate_start_eq_ok.mp hs
  · obtain ⟨_, hr⟩ := check_of_checked hremind r hr
    exact validate_remind_cap_eq_ok.mp hr
  · obtain ⟨raw, -, hts⟩ := of_checked htags ts hts
    exact validTags_sanitize hts

/-! ## Updates -/

/-- A member after a patch is the one of the patch or the one before. -/
theorem set_of {α : Type} {P : α → Prop} {patched : Option α} {stored : α}
    (hpatched : ∀ a ∈ patched, P a) (hstored : P stored) : P (EventPatch.set patched stored) := by
  unfold EventPatch.set
  cases patched with
  | none => exact hstored
  | some a => exact hpatched a rfl

theorem set_some_of {α : Type} {P : α → Prop} {patched stored : Option α}
    (hpatched : ∀ a ∈ patched, P a) (hstored : ∀ a ∈ stored, P a) :
    ∀ a ∈ EventPatch.set (patched.map some) stored, P a := by
  unfold EventPatch.set
  cases patched with
  | none => exact hstored
  | some a =>
    rintro b hb
    obtain rfl := Option.some.inj hb
    exact hpatched _ rfl

theorem EventPatch.apply_eq_ok {p : EventPatch} {doc updated : EventDoc}
    (h : p.apply doc = .ok updated) :
    updated = { p.merge doc with reminder_fired := !p.times_changed doc && doc.reminder_fired } ∧
      ∀ end_ms ∈ (p.merge doc).end_ms, (p.merge doc).start_ms ≤ end_ms := by
  unfold EventPatch.apply at h
  obtain ⟨_, hend, h⟩ := bind_eq_ok.mp h
  refine ⟨(Except.ok.inj h).symm, fun end_ms he => ?_⟩
  obtain ⟨_, hle⟩ := check_of_checked hend end_ms he
  exact Int64.not_lt.mp (reject_eq_ok.mp hle)

theorem EventDoc.Valid.apply {p : EventPatch} {doc updated : EventDoc} (hdoc : doc.Valid)
    (hp : p.Checked) (hremind : ∀ remind ∈ p.remind_before_ms, 0 ≤ remind)
    (h : p.apply doc = .ok updated) : updated.Valid := by
  obtain ⟨rfl, hend⟩ := EventPatch.apply_eq_ok h
  exact
    { title := set_of hp.title hdoc.title
      description := set_of hp.description hdoc.description
      start := set_of hp.start hdoc.start
      end_ms := hend
      remind := set_some_of (fun r hr => ⟨hremind r hr, hp.remind r hr⟩) hdoc.remind
      tags := set_of hp.tags hdoc.tags }

/-- A valid document is valid with other marks and stamps. -/
theorem EventDoc.Valid.stamped {doc : EventDoc} (h : doc.Valid) (reminder_fired : Bool)
    (updated_at_ms : Int64) : { doc with reminder_fired, updated_at_ms }.Valid :=
  ⟨h.title, h.description, h.start, h.end_ms, h.remind, h.tags⟩

theorem ParsedEvent.Fits.newDoc {event : ParsedEvent} {start_ms now_ms : Int64}
    (h : event.Fits start_ms) (id : String) : (event.newDoc id start_ms now_ms).Valid :=
  { title := h.title
    description := h.description
    start := h.start
    end_ms := h.end_ms
    remind := h.remind
    tags := ⟨List.nodup_nil, Nat.zero_le _, fun _ h => nomatch h⟩ }

theorem ParsedEvent.Fits.update {event : ParsedEvent} {start_ms updated_at_ms : Int64}
    (h : event.Fits start_ms) {doc : EventDoc} (hdoc : doc.Valid) :
    (event.update doc start_ms updated_at_ms).Valid :=
  { title := h.title
    description := h.description
    start := h.start
    end_ms := h.end_ms
    remind := h.remind
    tags := hdoc.tags }

/-! ## Tasks -/

namespace Valid

/-- A sound write stores a valid document, if the documents that are read are valid. -/
def Allowed : Unit → Eff → Prop
  | _, .db_set writer doc => writer.Sound → doc.Valid
  | _, _ => True

/-- A write that is answered was sound. -/
def Next : Unit → (e : Eff) → e.Answer → Unit → Prop
  | _, .db_batch_get _, .ok docs, _ => ∀ doc ∈ docs, doc.Valid
  | _, .db_get _, .ok found, _ => ∀ doc ∈ found, doc.Valid
  | _, .db_set writer _, .ok _, _ => writer.Sound
  | _, _, _, _ => True

def protocol : Protocol Eff Eff.Answer Unit where
  allowed := Allowed
  next := Next

variable {now : Int64} {fuel : Nat}

theorem obeys_list :
    Obeys protocol (fun _ r => ∀ docs, r = .ok docs → ∀ doc ∈ docs, doc.Valid) () Db.list := by
  unfold Db.list
  refine ⟨trivial, ?_⟩
  rintro (e | keys) - -
  · exact fun docs h => nomatch h
  show Obeys _ _ _ (if keys = [] then _ else _)
  split_ifs
  · rintro docs h
    obtain rfl := Except.ok.inj h
    exact fun doc h => nomatch h
  · refine ⟨trivial, ?_⟩
    rintro (e | docs) ⟨⟩ hdocs
    · exact fun docs h => nomatch h
    · rintro docs' h
      obtain rfl := Except.ok.inj h
      exact hdocs

theorem obeys_event_create {e : NewEvent} (he : e.Valid) :
    Obeys protocol (fun _ _ => True) () (event_create e) := by
  unfold event_create
  refine ⟨trivial, ?_⟩
  rintro (err | id) - -
  · trivial
  refine ⟨trivial, ?_⟩
  rintro now - -
  refine ⟨fun _ => ⟨he.title, he.description, he.start, he.end_ms, he.remind, he.tags⟩, ?_⟩
  rintro (err | _) - -
  · trivial
  · trivial

theorem obeys_event_update {id : String} {patch : EventPatch} (hpatch : patch.Checked) :
    Obeys protocol (fun _ _ => True) () (event_update id patch) := by
  unfold event_update
  refine ⟨trivial, ?_⟩
  rintro (err | (_ | doc)) ⟨⟩ hdoc
  · trivial
  · trivial
  dsimp only [Async.bind]
  cases happly : patch.apply doc with
  | error err => trivial
  | ok updated =>
    refine ⟨trivial, ?_⟩
    rintro now - -
    have hvalid (hremind : ∀ remind ∈ patch.remind_before_ms, 0 ≤ remind) : updated.Valid :=
      (hdoc doc rfl).apply hpatch hremind happly
    refine ⟨fun hsound => (hvalid hsound).stamped updated.reminder_fired now, ?_⟩
    rintro (err | _) - -
    · trivial
    · trivial

/-! ## Imports -/

/-- The known documents are valid. -/
def Known (s : Import) : Prop :=
  ∀ (uid : String) (doc : EventDoc), s.by_uid[uid]? = some doc → doc.Valid

theorem known_start {existing : List EventDoc} (h : ∀ doc ∈ existing, doc.Valid) :
    Known (.start existing) := by
  have hgeneral (by_uid : Table String EventDoc)
      (hby : ∀ (uid : String) (doc : EventDoc), by_uid[uid]? = some doc → doc.Valid) :
      ∀ (uid : String) (doc : EventDoc), (existing.foldl learn by_uid)[uid]? = some doc → doc.Valid := by
    induction existing generalizing by_uid with
    | nil => exact hby
    | cons doc existing ih =>
      rw [List.foldl_cons]
      refine ih (fun doc hdoc => h doc (List.mem_cons_of_mem _ hdoc)) _ ?_
      unfold learn
      cases doc.ics_uid with
      | none => exact hby
      | some uid =>
        intro uid' doc' hstored
        dsimp only at hstored
        rw [Table.getElem?_insert_ite] at hstored
        split_ifs at hstored
        · obtain rfl := Option.some.inj hstored
          exact h doc List.mem_cons_self
        · exact hby uid' doc' hstored
  exact hgeneral ∅ fun uid doc hstored => by simp at hstored

theorem known_insert {s : Import} {uid : String} {doc : EventDoc} (h : Known s) (hdoc : doc.Valid)
    (uid' : String) (doc' : EventDoc) (hstored : (s.by_uid.insert uid doc)[uid']? = some doc') :
    doc'.Valid := by
  rw [Table.getElem?_insert_ite] at hstored
  split_ifs at hstored
  · obtain rfl := Option.some.inj hstored
    exact hdoc
  · exact h uid' doc' hstored

theorem obeys_import_occurrence {event : ParsedEvent} {start_ms : Int64} {s : Import} (h : Known s) :
    Obeys protocol (fun _ r => ∀ s', r = .ok s' → Known s') ()
      (import_occurrence now event start_ms s) := by
  unfold import_occurrence
  split_ifs
  · exact fun s' h => nomatch h
  cases hknown : s.known event with
  | some doc =>
    have hdoc : doc.Valid := by
      unfold Import.known at hknown
      split_ifs at hknown
      exact h event.uid doc hknown
    refine ⟨trivial, ?_⟩
    rintro updated_at_ms - -
    refine ⟨fun hsound => hsound.update hdoc, ?_⟩
    rintro (err | _) ⟨⟩ hsound
    · exact fun s' h => nomatch h
    · rintro s' hs'
      obtain rfl := Except.ok.inj hs'
      exact known_insert h (ParsedEvent.Fits.update hsound hdoc)
  | none =>
    refine ⟨trivial, ?_⟩
    rintro (err | id) - -
    · exact fun s' h => nomatch h
    refine ⟨fun hsound => hsound.newDoc _, ?_⟩
    rintro (err | _) ⟨⟩ hsound
    · exact fun s' h => nomatch h
    · rintro s' hs'
      obtain rfl := Except.ok.inj hs'
      unfold Known Import.added
      dsimp only
      split_ifs
      · exact h
      · exact known_insert h (ParsedEvent.Fits.newDoc hsound _)

theorem obeys_import_occurrences {event : ParsedEvent} {starts : List Int64} {s : Import} (h : Known s) :
    Obeys protocol (fun _ r => ∀ s', r = .ok s' → Known s') ()
      (import_occurrences now event starts s) := by
  induction starts generalizing s with
  | nil =>
    rintro s' hs'
    obtain rfl := Except.ok.inj hs'
    exact h
  | cons start_ms starts ih =>
    unfold import_occurrences
    refine (obeys_import_occurrence h).bind ?_
    rintro - (err | s') hs'
    · exact fun s' h => nomatch h
    · exact ih (hs' s' rfl)

theorem obeys_import_events {events : List ParsedEvent} {s : Import} (h : Known s) :
    Obeys protocol (fun _ _ => True) () (import_events fuel now events s) := by
  induction events generalizing s with
  | nil => trivial
  | cons event events ih =>
    unfold import_events
    cases occurrences fuel event (window_start now) (window_end now) with
    | none => trivial
    | some starts =>
      refine (obeys_import_occurrences h).bind ?_
      rintro - (err | s') hs'
      · trivial
      · exact ih (hs' s' rfl)

theorem obeys_import_ics {c : Crates} {ics_base64 : String} :
    Obeys protocol (fun _ _ => True) () (import_ics c fuel ics_base64) := by
  unfold import_ics
  cases decode_ics c ics_base64 with
  | error err => trivial
  | ok parsed =>
    refine ⟨trivial, ?_⟩
    rintro now - -
    show Obeys _ _ _ (import_at fuel parsed now)
    unfold import_at
    refine obeys_list.bind ?_
    rintro - (err | existing) hexisting
    · trivial
    refine (obeys_import_events (known_start (hexisting existing rfl))).bind ?_
    rintro - (_ | (err | s)) -
    · trivial
    · trivial
    · trivial

/-! ## Scans -/

theorem obeys_fire_all {notify_enabled : Bool} {fires : List DueFire}
    (h : ∀ fire ∈ fires, fire.event.Valid) :
    Obeys protocol (fun _ _ => True) () (fire_all notify_enabled now fires) := by
  induction fires with
  | nil => trivial
  | cons fire fires ih =>
    have hrest : Obeys protocol (fun _ _ => True) () (fire_all notify_enabled now fires) :=
      ih fun fire hfire => h fire (List.mem_cons_of_mem _ hfire)
    have hfire : Obeys protocol (fun _ _ => True) () (fire_due notify_enabled now fire) := by
      unfold fire_due
      refine ⟨fun _ => (h fire List.mem_cons_self).stamped true fire.event.updated_at_ms, ?_⟩
      rintro (err | _) - -
      · trivial
      refine ⟨trivial, ?_⟩
      rintro - - -
      show Obeys _ _ _ (if notify_enabled then _ else _)
      split_ifs
      · exact ⟨trivial, fun _ _ _ => trivial⟩
      · trivial
    unfold fire_all
    refine hfire.bind ?_
    rintro - (err | _) -
    · trivial
    · exact hrest

theorem obeys_scan_due {notify_enabled : Bool} :
    Obeys protocol (fun _ _ => True) () (scan_due notify_enabled now) := by
  unfold scan_due
  refine obeys_list.bind ?_
  rintro - (err | docs) hdocs
  · trivial
  have hvalid : ∀ fire ∈ due_events docs now, fire.event.Valid :=
    fun fire hfire => hdocs docs rfl fire.event (of_mem_due_events hfire).1
  refine (obeys_fire_all hvalid).bind ?_
  rintro - (err | _) -
  · trivial
  · trivial

/-! ## Runs -/

variable {c : Crates}

theorem valid_of_parse {params : Params} {e : NewEvent}
    (h : parse_request c params = .ok (.Create e)) : e.Valid := by
  cases params with
  | event_create p =>
    obtain ⟨e', hp, heq⟩ := map_eq_ok.mp h
    obtain rfl := CalendarRequest.Create.inj heq
    exact valid_of_parse_create hp
  | event_get id =>
    obtain ⟨_, -, heq⟩ := map_eq_ok.mp h
    cases heq
  | event_update id p =>
    obtain ⟨_, -, h⟩ := bind_eq_ok.mp h
    obtain ⟨_, -, h⟩ := bind_eq_ok.mp h
    cases h
  | event_delete id =>
    obtain ⟨_, -, heq⟩ := map_eq_ok.mp h
    cases heq
  | calendar_ics_import ics_base64 =>
    obtain ⟨_, -, h⟩ := bind_eq_ok.mp h
    cases h
  | calendar_ics_export => cases h
  | other action => cases h

theorem checked_of_parse {params : Params} {id : String} {patch : EventPatch}
    (h : parse_request c params = .ok (.Update id patch)) : patch.Checked := by
  cases params with
  | event_update id' p =>
    obtain ⟨_, -, h⟩ := bind_eq_ok.mp h
    obtain ⟨p', hp, h⟩ := bind_eq_ok.mp h
    obtain ⟨-, rfl⟩ := CalendarRequest.Update.inj (Except.ok.inj h)
    exact checked_of_parse_patch hp
  | event_create p =>
    obtain ⟨_, -, heq⟩ := map_eq_ok.mp h
    cases heq
  | event_get id =>
    obtain ⟨_, -, heq⟩ := map_eq_ok.mp h
    cases heq
  | event_delete id =>
    obtain ⟨_, -, heq⟩ := map_eq_ok.mp h
    cases heq
  | calendar_ics_import ics_base64 =>
    obtain ⟨_, -, h⟩ := bind_eq_ok.mp h
    cases h
  | calendar_ics_export => cases h
  | other action => cases h

theorem obeys_handle_action (params : Params) :
    Obeys protocol (fun _ _ => True) () (handle_action c fuel params) := by
  unfold handle_action
  cases hreq : parse_request c params with
  | error err => trivial
  | ok req =>
    cases req with
    | Create e => exact (obeys_event_create (valid_of_parse hreq)).bind fun _ _ _ => trivial
    | Get id =>
      refine ⟨trivial, ?_⟩
      rintro (err | doc) - -
      · trivial
      · trivial
    | Update id patch =>
      exact (obeys_event_update (checked_of_parse hreq)).bind fun _ _ _ => trivial
    | Delete id =>
      refine ⟨trivial, ?_⟩
      rintro (err | deleted) - -
      · trivial
      · trivial
    | Import ics_base64 => exact obeys_import_ics
    | Export =>
      show Obeys _ _ _ export_ics
      unfold export_ics
      refine obeys_list.bind ?_
      rintro - (err | events) -
      · trivial
      dsimp only
      split
      · trivial
      · trivial

theorem obeys_task (config : Config) (spawn : Spawn) :
    Obeys protocol (fun _ _ => True) () (spawn.task c config) := by
  cases spawn with
  | tick =>
    refine ⟨trivial, ?_⟩
    rintro now - -
    exact obeys_scan_due.bind fun _ _ _ => trivial
  | request params =>
    refine (obeys_handle_action params).bind ?_
    rintro - (_ | (err | result)) -
    · trivial
    · exact ⟨trivial, fun _ _ _ => trivial⟩
    · refine ⟨trivial, ?_⟩
      rintro - - -
      dsimp only
      split
      · exact ⟨trivial, fun _ _ _ => trivial⟩
      · trivial

variable {w w' : World}

/-- A write keeps the stored documents valid. -/
theorem put_valid {doc : EventDoc} (h : w.Valid) (hdoc : w.fate.done = true → doc.Valid) :
    (w.fate.write w (w.put doc)).Valid := by
  rw [Fate.write_eq]
  split_ifs with hdone
  · intro id doc' hstored
    rw [World.getElem?_put] at hstored
    split_ifs at hstored
    · obtain rfl := Option.some.inj hstored
      exact hdoc hdone
    · exact h id doc' hstored
  · exact h

/-- One effect of a task. -/
theorem valid_act {i : Nat} {e : Eff} {r : e.Answer} (h : w.Valid) (hallowed : Allowed () e)
    (hw : Handle i w e r w') (hsound : SoundWrites w (.act i e r)) : Next () e r () ∧ w'.Valid := by
  obtain ⟨rfl, rfl⟩ := Prod.mk.inj hw
  cases e with
  | now => exact ⟨trivial, h⟩
  | db_keys => exact ⟨trivial, h⟩
  | db_batch_get keys =>
    refine ⟨?_, h⟩
    show Next () (.db_batch_get keys) (w.fate.answer (w.rows keys)) ()
    cases hr : w.fate.answer (w.rows keys) with
    | error err => trivial
    | ok docs =>
      obtain ⟨-, rfl⟩ := Fate.answer_eq_ok_iff.mp hr
      exact fun doc hdoc => h doc.id doc (w.mem_rows hdoc)
  | db_get id =>
    refine ⟨?_, h⟩
    show Next () (.db_get id) (w.fate.answer w.docs[id]?) ()
    cases hr : w.fate.answer w.docs[id]? with
    | error err => trivial
    | ok found =>
      obtain ⟨-, rfl⟩ := Fate.answer_eq_ok_iff.mp hr
      exact fun doc hdoc => h id doc hdoc
  | db_set writer doc =>
    refine ⟨?_, put_valid h fun hdone => hallowed (hsound hdone)⟩
    show Next () (.db_set writer doc) (w.fate.answer ()) ()
    cases hr : w.fate.answer () with
    | error err => trivial
    | ok u =>
      obtain ⟨hfate, -⟩ := Fate.answer_eq_ok_iff.mp hr
      exact hsound (by rw [hfate]; rfl)
  | db_delete id =>
    refine ⟨trivial, ?_⟩
    show (w.fate.write w (w.delete id)).Valid
    rw [Fate.write_eq]
    split_ifs
    · intro id' doc hstored
      rw [World.getElem?_delete] at hstored
      split_ifs at hstored
      exact h id' doc hstored
    · exact h
  | db_incr =>
    refine ⟨trivial, ?_⟩
    show (w.fate.write w _).Valid
    rw [Fate.write_eq]
    split_ifs
    · exact h
    · exact h
  | publish_due fire => exact ⟨trivial, h⟩
  | notify_send message => exact ⟨trivial, h⟩
  | reply result => exact ⟨trivial, h⟩
  | publish_changed event => exact ⟨trivial, h⟩

end Valid

/-- Every stored event is valid, if no update stores a negative reminder and every occurrence that is
    imported fits. -/
theorem stored_events_are_valid {c : Crates} {config : Config} {spawn : Nat → Spawn} {w₀ : World}
    (hempty : w₀.docs = ∅) {trace : List TaskLabel} {p : Tasks}
    (hrun : Run (Where (fun p l => SoundWrites p.world l) TaskStep) (.start c config spawn w₀) trace p) :
    p.world.Valid := by
  have hinv : PoolInv Valid.protocol (fun _ _ _ => True) (fun _ _ w => w.Valid) trace p := by
    refine hrun.invariant ?_ fun trace p l p' hp hstep => ?_
    · refine ⟨fun _ => (), fun id doc hstored => ?_, fun i => Valid.obeys_task config (spawn i)⟩
      change w₀.docs[id]? = some doc at hstored
      rw [hempty] at hstored
      simp at hstored
    · refine hp.step ?_ ?_ (hstep.1.where _ hstep.2)
      · intro g trace w i e r w' h hallowed hw
        exact ⟨(), Valid.valid_act h hallowed hw.1 hw.2⟩
      · rintro g trace w l w' h ⟨rfl, -⟩
        exact h
  obtain ⟨-, h, -⟩ := hinv
  exact h

/-! ## A reminder -/

/-- No recurrence and no calendar is read. -/
def noCrates : Crates where
  rrule_from_str _ := .error "not a rule"
  base64_decode _ := .error "not base64"

def callEvent : NewEvent where
  title := "call"
  description := ""
  start_ms := 1000000
  end_ms := none
  all_day := false
  remind_before_ms := none
  tags := []
  rrule := none

def remindPatch (remind_before_ms : Int64) : EventPatch where
  title := none
  description := none
  start_ms := none
  end_ms := none
  all_day := none
  remind_before_ms := some remind_before_ms
  tags := none
  rrule := none

/-- An event is created and gets a reminder. -/
def createAndRemind (remind_before_ms : Int64) : Nat → Spawn
  | 0 => .request (.event_create callEvent)
  | _ => .request (.event_update "1" (remindPatch remind_before_ms))

def runRemind (cond : World → TaskLabel → Prop) [∀ w l, Decidable (cond w l)]
    (remind_before_ms : Int64) : Option (List TaskLabel × Tasks) :=
  runOf (answerTask cond)
    (.start noCrates { notify_enabled := false, fuel := 0 } (createAndRemind remind_before_ms) .empty)
    (List.replicate 3 (.act 0) ++ List.replicate 3 (.act 1))

theorem run_runRemind {cond : World → TaskLabel → Prop} [∀ w l, Decidable (cond w l)]
    {remind_before_ms : Int64} {r : List TaskLabel × Tasks}
    (h : runRemind cond remind_before_ms = some r) :
    Run (Where (fun p l => cond p.world l) TaskStep)
      (.start noCrates { notify_enabled := false, fuel := 0 } (createAndRemind remind_before_ms) .empty)
      r.1 r.2 :=
  run_runOf (fun _ _ _ _ h => taskStep_answerTask h) h

theorem stored_events_are_valid_sample : ∃ r, runRemind SoundWrites 60000 = some r ∧
    (r.2.world.docs["1"]?.bind EventDoc.remind_before_ms) = some 60000 ∧ r.2.world.Valid := by
  have hsome : ((runRemind SoundWrites 60000).any fun r =>
      (r.2.world.docs["1"]?.bind EventDoc.remind_before_ms) = some 60000) = true := by
    decide
  obtain ⟨r, hr, hremind⟩ := (Option.any_eq_true _ _).mp hsome
  exact ⟨r, hr, of_decide_eq_true hremind, stored_events_are_valid rfl (run_runRemind hr)⟩

/-- The update stores the negative reminder. -/
theorem update_stores_negative_reminder : ∃ trace p,
    Run TaskStep
      (.start noCrates { notify_enabled := false, fuel := 0 } (createAndRemind (-1)) .empty) trace p ∧
    ∃ doc, p.world.docs["1"]? = some doc ∧ ¬ doc.Valid := by
  have hsome : ((runRemind (fun _ _ => True) (-1)).any fun r =>
      (r.2.world.docs["1"]?.bind EventDoc.remind_before_ms) = some (-1)) = true := by
    decide
  obtain ⟨r, hr, hremind⟩ := (Option.any_eq_true _ _).mp hsome
  obtain ⟨doc, hdoc, hremind⟩ := Option.bind_eq_some_iff.mp (of_decide_eq_true hremind)
  refine ⟨r.1, r.2, (run_runRemind hr).mono fun _ _ _ hl => hl.1, doc, hdoc, fun hvalid => ?_⟩
  exact absurd (hvalid.remind _ hremind).1 (by decide)

end Calendar
