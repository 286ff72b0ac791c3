import VynkorPlugins.Base.Text
import VynkorPlugins.Calendar.Listing

/-!
# When `event_list` answers the time range
-/

namespace Calendar

variable {r : RRules} {occurrence : r.RRuleSet → Nat → Option Int64} {clock : Readings}
  {q : ListRequest} {e x : EventDoc} {rrule : String}

/-! ## Occurrences -/

/-- A tag and a start tell an occurrence from another one of the same event. -/
theorem occurrence_inj {e' : EventDoc} {ms ms' : Int64} (h : e.occurrence ms = e'.occurrence ms') :
    e.id = e'.id ∧ ms = ms' := by
  have hms : ms = ms' := congrArg EventDoc.start_ms h
  subst hms
  have hid : e.id ++ "#" ++ toString ms = e'.id ++ "#" ++ toString ms := congrArg EventDoc.id h
  have hchars := congrArg String.toList hid
  rw [String.toList_append, String.toList_append, String.toList_append, String.toList_append] at hchars
  have hchars := List.append_cancel_right (List.append_cancel_right hchars)
  exact ⟨String.toList_injective hchars, rfl⟩

/-- No stored event is listed under the id of an occurrence. -/
theorem ne_occurrence {w : World} (hw : w.Counted) (he : e ∈ w.events) (e' : EventDoc) (ms : Int64) :
    e ≠ e'.occurrence ms := by
  rintro rfl
  obtain ⟨n, -, hn⟩ := hw _ _ (World.mem_rows he)
  have hhash : '#' ∈ (e'.occurrence ms).id.toList := by
    change '#' ∈ (e'.id ++ "#" ++ toString ms).toList
    simp
  rw [hn, Nat.toString_eq_ofList_toDigits, String.toList_ofList] at hhash
  have hdigit := Nat.isDigit_of_mem_toDigits (b := 10) (by decide) (by decide) hhash
  cases hdigit

theorem eq_of_id {w : World} (he : e ∈ w.events) {e' : EventDoc} (he' : e' ∈ w.events)
    (hid : e.id = e'.id) : e = e' := by
  have hstored := World.mem_rows he
  rw [hid, World.mem_rows he'] at hstored
  exact (Option.some.inj hstored).symm

theorem mem_dates (hr : r.InOrder occurrence) {set : r.RRuleSet} {dates : List Int64}
    (h : r.all set 50 = some dates) {ms : Int64} :
    ms ∈ dates ↔ ∃ n, n < 50 ∧ occurrence set n = some ms := by
  rw [hr.all set 50 dates h, List.mem_filterMap]
  simp only [List.mem_range]

theorem nodup_dates (hr : r.InOrder occurrence) {set : r.RRuleSet} {dates : List Int64}
    (h : r.all set 50 = some dates) : dates.Nodup := by
  rw [hr.all set 50 dates h, List.Nodup, List.pairwise_filterMap]
  refine List.pairwise_lt_range.imp fun {i j} hij a ha b hb => ?_
  rintro rfl
  exact Int64.lt_irrefl (hr.strict set i j a a hij ha hb)

/-! ## What is listed of one event -/

theorem mem_expand_plain (hplain : e.rrule = none) :
    x ∈ expand r q clock e ↔ x = e ∧ InRange q.from_ms q.to_ms e.start_ms ∧ Tagged q.tag e := by
  simp only [expand, hplain]
  split_ifs with h
  · rw [List.mem_singleton]
    exact ⟨fun hx => ⟨hx, h⟩, fun hx => hx.1⟩
  · exact ⟨fun hx => (nomatch hx), fun hx => absurd hx.2 h⟩

/-- The event itself or occurrences of it. -/
theorem mem_expand_rrule_set_cases {w : Int64 × Int64}
    (hx : x ∈ expand_rrule_set r e rrule w.1 w.2) : x = e ∨ ∃ ms, x = e.occurrence ms := by
  unfold expand_rrule_set at hx
  split at hx
  · exact .inl (List.mem_singleton.mp hx)
  · split at hx
    · exact .inl (List.mem_singleton.mp hx)
    · dsimp only at hx
      split_ifs at hx
      · exact .inl (List.mem_singleton.mp hx)
      · obtain ⟨ms, -, rfl⟩ := List.mem_map.mp (List.mem_of_mem_take hx)
        exact .inr ⟨ms, rfl⟩

theorem tags_of_mem_expand (hrrule : e.rrule = some rrule) (hx : x ∈ expand r q clock e) :
    Tagged q.tag e := by
  simp only [expand, hrrule] at hx
  obtain ⟨hmem, htag⟩ := List.mem_filter.mp hx
  have htag := of_decide_eq_true htag
  rcases mem_expand_rrule_set_cases hmem with rfl | ⟨ms, rfl⟩
  · exact htag
  · exact htag

theorem mem_expand_cases (hx : x ∈ expand r q clock e) : x = e ∨ ∃ ms, x = e.occurrence ms := by
  cases hrrule : e.rrule with
  | none => exact .inl ((mem_expand_plain hrrule).mp hx).1
  | some rrule =>
    simp only [expand, hrrule] at hx
    exact mem_expand_rrule_set_cases (List.mem_filter.mp hx).1

/-- The dates of a recurrence that lie in its window. -/
def inWindow (w : Int64 × Int64) (dates : List Int64) : List Int64 :=
  dates.filter fun ms => ¬ (ms < w.1 ∨ w.2 < ms)

theorem mem_inWindow {w : Int64 × Int64} {dates : List Int64} {ms : Int64} :
    ms ∈ inWindow w dates ↔ ms ∈ dates ∧ w.1 ≤ ms ∧ ms ≤ w.2 := by
  rw [inWindow, List.mem_filter, decide_eq_true_eq, not_or, Int64.not_lt, Int64.not_lt]

/-- The first dates in the window are listed if there are any. -/
theorem expand_rrule_set_eq (hr : r.InOrder occurrence) {set : r.RRuleSet} {dates : List Int64}
    (hset : r.set e rrule = some set) (hall : r.all set 50 = some dates) (w : Int64 × Int64) :
    expand_rrule_set r e rrule w.1 w.2 =
      if inWindow w dates = [] then [e] else (inWindow w dates).map e.occurrence := by
  have hlen : ((inWindow w dates).map e.occurrence).length ≤ 50 := by
    rw [List.length_map]
    refine (List.length_filter_le _ _).trans ?_
    rw [hr.all set 50 dates hall]
    exact (List.length_filterMap_le _ _).trans_eq List.length_range
  simp only [expand_rrule_set, hset, hall]
  change (if ((inWindow w dates).map e.occurrence).take 50 = [] then [e]
    else ((inWindow w dates).map e.occurrence).take 50) = _
  rw [List.take_of_length_le hlen]
  simp only [List.map_eq_nil_iff]

/-- Either the event stands for itself, or dates in the window are listed. -/
theorem expand_rrule_set_cases (hr : r.InOrder occurrence) (e : EventDoc) (rrule : String)
    (w : Int64 × Int64) :
    expand_rrule_set r e rrule w.1 w.2 = [e] ∨
      ∃ set dates, r.set e rrule = some set ∧ r.all set 50 = some dates ∧ inWindow w dates ≠ [] ∧
        expand_rrule_set r e rrule w.1 w.2 = (inWindow w dates).map e.occurrence := by
  cases hset : r.set e rrule with
  | none =>
    left
    simp only [expand_rrule_set, hset]
  | some set =>
    cases hall : r.all set 50 with
    | none =>
      left
      simp only [expand_rrule_set, hset, hall]
    | some dates =>
      have heq := expand_rrule_set_eq hr hset hall w
      by_cases hnil : inWindow w dates = []
      · rw [if_pos hnil] at heq
        exact .inl heq
      · rw [if_neg hnil] at heq
        exact .inr ⟨set, dates, rfl, hall, hnil, heq⟩

theorem expand_recurring (hrrule : e.rrule = some rrule) (htag : Tagged q.tag e) :
    expand r q clock e =
      expand_rrule_set r e rrule (window q clock e).1 (window q clock e).2 := by
  simp only [expand, hrrule]
  rw [List.filter_eq_self]
  intro x hx
  rcases mem_expand_rrule_set_cases hx with rfl | ⟨ms, rfl⟩
  · exact decide_eq_true htag
  · exact decide_eq_true htag

/-! ## The list -/

instance : Std.Total ListedLe where
  total a b := by
    unfold ListedLe
    rw [Int64.lt_iff_toInt_lt, Int64.lt_iff_toInt_lt, ← Int64.toInt_inj, ← Int64.toInt_inj,
      UInt64.le_iff_toNat_le, UInt64.le_iff_toNat_le]
    omega

instance : IsTrans EventDoc ListedLe where
  trans a b c := by
    unfold ListedLe
    rw [Int64.lt_iff_toInt_lt, Int64.lt_iff_toInt_lt, Int64.lt_iff_toInt_lt, ← Int64.toInt_inj,
      ← Int64.toInt_inj, ← Int64.toInt_inj, UInt64.le_iff_toNat_le, UInt64.le_iff_toNat_le,
      UInt64.le_iff_toNat_le]
    omega

/-- All that is listed, before the page is cut. -/
def listed (r : RRules) (q : ListRequest) (clock : Readings) (events : List EventDoc) :
    List EventDoc :=
  (events.flatMap (expand r q clock)).insertionSort ListedLe

theorem event_list_eq (events : List EventDoc) (limit offset : Nat) :
    event_list r clock events { q with limit, offset } =
      { events := ((listed r q clock events).drop offset).take limit
        total := (listed r q clock events).length } := rfl

theorem mem_listed {events : List EventDoc} :
    x ∈ listed r q clock events ↔ ∃ e ∈ events, x ∈ expand r q clock e := by
  rw [listed, List.mem_insertionSort, List.mem_flatMap]

theorem listed_sorted (events : List EventDoc) :
    (listed r q clock events).Pairwise fun a b => a.start_ms ≤ b.start_ms := by
  refine (List.pairwise_insertionSort ListedLe _).imp fun {a b} hab => ?_
  rcases hab with hlt | ⟨heq, -⟩
  · exact Int64.le_of_lt hlt
  · rw [heq]
    exact Int64.le_refl _

variable {w : World}

/-- What an event is expanded to where its recurrence can be. -/
theorem expand_of_expands (hr : r.InOrder occurrence) (hrrule : e.rrule = some rrule)
    (htag : Tagged q.tag e) (h : Expands r occurrence q clock e rrule) :
    ∃ set dates, r.set e rrule = some set ∧ r.all set 50 = some dates ∧
      expand r q clock e = (inWindow (window q clock e) dates).map e.occurrence := by
  obtain ⟨set, hset, hsome, ⟨n, ms, hn, hms, hwindow⟩, -⟩ := h
  obtain ⟨dates, hall⟩ := Option.isSome_iff_exists.mp hsome
  have hmem : ms ∈ inWindow (window q clock e) dates :=
    mem_inWindow.mpr ⟨(mem_dates hr hall).mpr ⟨n, hn, hms⟩, hwindow⟩
  refine ⟨set, dates, hset, hall, ?_⟩
  rw [expand_recurring hrrule htag, expand_rrule_set_eq hr hset hall,
    if_neg (List.ne_nil_of_mem hmem)]

theorem range_of_window {ms : Int64} (h : (window q clock e).1 ≤ ms ∧ ms ≤ (window q clock e).2) :
    InRange q.from_ms q.to_ms ms := by
  constructor
  · intro t ht
    have hlo := h.1
    rwa [window, ht, Option.getD_some] at hlo
  · intro t ht
    have hhi := h.2
    rwa [window, ht, Option.getD_some] at hhi

/-- The condition under which the range is answered. -/
def Answerable (r : RRules) (occurrence : r.RRuleSet → Nat → Option Int64) (clock : Readings)
    (events : List EventDoc) (q : ListRequest) : Prop :=
  ∀ e ∈ events, ∀ rrule, e.rrule = some rrule → Tagged q.tag e → Expands r occurrence q clock e rrule

section

variable (hr : r.InOrder occurrence) (h : Answerable r occurrence clock w.events q)

include hr h

theorem mem_listed_iff_meant (x : EventDoc) :
    x ∈ listed r q clock w.events ↔ Meant r occurrence w.events q x := by
  rw [mem_listed]
  constructor
  · rintro ⟨e, he, hx⟩
    cases hrrule : e.rrule with
    | none =>
      obtain ⟨rfl, hrange, htag⟩ := (mem_expand_plain hrrule).mp hx
      exact .plain he hrrule hrange htag
    | some rrule =>
      have htag := tags_of_mem_expand hrrule hx
      obtain ⟨set, dates, hset, hall, heq⟩ := expand_of_expands hr hrrule htag (h e he rrule hrrule htag)
      rw [heq] at hx
      obtain ⟨ms, hms, rfl⟩ := List.mem_map.mp hx
      obtain ⟨hdate, hwindow⟩ := mem_inWindow.mp hms
      obtain ⟨n, -, hn⟩ := (mem_dates hr hall).mp hdate
      exact .occurrence he hrrule hset hn (range_of_window hwindow) htag
  · intro hmeant
    cases hmeant with
    | plain he hplain hrange htag =>
      exact ⟨x, he, (mem_expand_plain hplain).mpr ⟨rfl, hrange, htag⟩⟩
    | @occurrence e rrule set n ms he hrrule hset hn hrange htag =>
      have hexp := h e he rrule hrrule htag
      obtain ⟨set', dates, hset', hall, heq⟩ := expand_of_expands hr hrrule htag hexp
      obtain ⟨set'', hset'', -, -, hevery⟩ := hexp
      obtain rfl := Option.some.inj (hset.symm.trans hset')
      obtain rfl := Option.some.inj (hset.symm.trans hset'')
      obtain ⟨hlt, hwindow⟩ := hevery n ms hn hrange
      refine ⟨e, he, ?_⟩
      rw [heq]
      exact List.mem_map_of_mem (mem_inWindow.mpr ⟨(mem_dates hr hall).mpr ⟨n, hlt, hn⟩, hwindow⟩)

theorem nodup_listed (hw : w.Counted) : (listed r q clock w.events).Nodup := by
  rw [listed, (List.perm_insertionSort _ _).nodup_iff, List.nodup_flatMap]
  constructor
  · intro e he
    cases hrrule : e.rrule with
    | none =>
      simp only [expand, hrrule]
      split_ifs
      · exact List.nodup_singleton e
      · exact List.nodup_nil
    | some rrule =>
      by_cases htag : Tagged q.tag e
      · obtain ⟨set, dates, -, hall, heq⟩ :=
          expand_of_expands hr hrrule htag (h e he rrule hrrule htag)
        rw [heq]
        exact ((nodup_dates hr hall).filter _).map fun _ _ heq => (occurrence_inj heq).2
      · have hnil : expand r q clock e = [] := by
          rw [List.eq_nil_iff_forall_not_mem]
          exact fun x hx => htag (tags_of_mem_expand hrrule hx)
        rw [hnil]
        exact List.nodup_nil
  · have hids := World.nodup_rows w w.docs.keys
    rw [List.Nodup, List.pairwise_map] at hids
    refine hids.imp_of_mem fun {e e'} he he' hne x hx hx' => ?_
    rcases mem_expand_cases hx with rfl | ⟨ms, rfl⟩ <;>
      rcases mem_expand_cases hx' with rfl | ⟨ms', heq⟩
    · exact hne rfl
    · exact ne_occurrence hw he e' ms' heq
    · exact ne_occurrence hw he' e ms rfl
    · exact hne (occurrence_inj heq).1

end

/-! ## Answers -/

theorem answers_of_answerable (hr : r.InOrder occurrence) (hw : w.Counted)
    (h : Answerable r occurrence clock w.events q) :
    Answers r occurrence clock w.events q (listed r q clock w.events) := by
  have hmem := mem_listed_iff_meant hr h
  refine ⟨hmem, nodup_listed hr h hw, listed_sorted _, fun limit offset x hx => ?_,
    fun limit offset => by rw [event_list_eq], fun limit hlimit => ?_⟩
  · rw [event_list_eq] at hx
    have hmeant := (hmem x).mp (List.mem_of_mem_drop (List.mem_of_mem_take hx))
    cases hmeant with
    | plain he hplain hrange htag => exact ⟨hrange, htag⟩
    | occurrence he hrrule hset hn hrange htag => exact ⟨hrange, htag⟩
  · refine ⟨(listed r q clock w.events).length, ?_⟩
    simp only [event_list_eq]
    exact Pages.flatMap_all_pages _ hlimit

/-- What is answered is what is listed. -/
theorem Answers.eq_listed {events all : List EventDoc}
    (h : Answers r occurrence clock events q all) : all = listed r q clock events := by
  obtain ⟨n, hn⟩ := h.pages 1 Nat.one_pos
  have htotal : (listed r q clock events).length = all.length := h.total 0 0
  simp only [event_list_eq] at hn
  rw [Pages.flatMap_pages] at hn
  have hlen := congrArg List.length hn
  rw [List.length_take] at hlen
  rw [← hn, List.take_of_length_le (by omega)]

/-- No recurring event is answered for itself. -/
theorem not_mem_answers {all : List EventDoc} (hw : w.Counted)
    (h : Answers r occurrence clock w.events q all) (he : e ∈ w.events)
    (hrrule : e.rrule = some rrule) : e ∉ all := by
  intro hmem
  have hmeant := (h.meant e).mp hmem
  generalize hx : e = x at hmeant
  cases hmeant with
  | plain he' hplain =>
    rw [← hx, hrrule] at hplain
    cases hplain
  | occurrence he' => exact ne_occurrence hw he _ _ hx

theorem answerable_of_answers {all : List EventDoc} (hr : r.InOrder occurrence) (hw : w.Counted)
    (h : Answers r occurrence clock w.events q all) : Answerable r occurrence clock w.events q := by
  intro e he rrule hrrule htag
  have hmem : ∀ x, x ∈ all ↔ ∃ e ∈ w.events, x ∈ expand r q clock e := by
    intro x
    rw [h.eq_listed, mem_listed]
  have hexpand : expand r q clock e =
      expand_rrule_set r e rrule (window q clock e).1 (window q clock e).2 :=
    expand_recurring hrrule htag
  rcases expand_rrule_set_cases hr e rrule (window q clock e) with
    hself | ⟨set, dates, hset, hall, hne, hmap⟩
  · rw [hself] at hexpand
    have hlisted : e ∈ all := (hmem e).mpr ⟨e, he, by rw [hexpand]; exact List.mem_singleton_self e⟩
    exact absurd hlisted (not_mem_answers hw h he hrrule)
  · refine ⟨set, hset, by rw [hall]; rfl, ?_, fun n ms hn hrange => ?_⟩
    · obtain ⟨ms, hms⟩ := List.exists_mem_of_ne_nil _ hne
      obtain ⟨hdate, hwindow⟩ := mem_inWindow.mp hms
      obtain ⟨n, hlt, hn⟩ := (mem_dates hr hall).mp hdate
      exact ⟨n, ms, hlt, hn, hwindow⟩
    · obtain ⟨e', he', hx⟩ :=
        (hmem _).mp ((h.meant _).mpr (.occurrence he hrrule hset hn hrange htag))
      rcases mem_expand_cases hx with heq | ⟨ms', heq⟩
      · exact absurd heq.symm (ne_occurrence hw he' e ms)
      obtain rfl := eq_of_id he he' (occurrence_inj heq).1
      rw [hexpand, hmap] at hx
      obtain ⟨ms'', hms, heq⟩ := List.mem_map.mp hx
      obtain rfl : ms'' = ms := (occurrence_inj heq).2
      obtain ⟨hdate, hwindow⟩ := mem_inWindow.mp hms
      obtain ⟨n', hlt, hn'⟩ := (mem_dates hr hall).mp hdate
      -- the sequence has the occurrence once
      rcases Nat.lt_trichotomy n n' with hnn | rfl | hnn
      · exact absurd (hr.strict set n n' ms'' ms'' hnn hn hn') Int64.lt_irrefl
      · exact ⟨hlt, hwindow⟩
      · exact absurd (hr.strict set n' n ms'' ms'' hnn hn' hn) Int64.lt_irrefl

/-- The time range is answered, page by page, exactly where each recurring event with the tag is
    expanded to some occurrence, and no occurrence in the range is missed. -/
theorem event_list_answers_iff (hr : r.InOrder occurrence) (hw : w.Counted) :
    (∃ all, Answers r occurrence clock w.events q all) ↔
      Answerable r occurrence clock w.events q :=
  ⟨fun ⟨_, h⟩ => answerable_of_answers hr hw h, fun h => ⟨_, answers_of_answerable hr hw h⟩⟩

/-! ## A daily event -/

/-- What the crates do for an event of every day in the first hundred days of 1970. -/
def hundredDays : RRules where
  RRuleSet := Unit
  from_str text := if text = "DTSTART:19700101T000001Z\nRRULE:FREQ=DAILY;COUNT=100" then some () else none
  all _ limit := some ((List.range (min limit 100)).map fun n => Int64.ofNat (1000 + n * 86400000))
  format ms := if ms = 1000 then "19700101T000001Z" else "19700101T000000Z"

def daily (n : Nat) : Option Int64 :=
  if n < 100 then some (Int64.ofNat (1000 + n * 86400000)) else none

def standUp : EventDoc where
  id := "1"
  title := "Stand-up"
  description := ""
  start_ms := 1000
  end_ms := none
  all_day := false
  remind_before_ms := none
  reminder_fired := false
  tags := []
  ics_uid := none
  rrule := some "FREQ=DAILY;COUNT=100"
  created_at_ms := 1
  updated_at_ms := 1

def standUpWorld : World := { World.empty.put standUp with next_id := 1 }

/-- The sixty-first day. -/
def laterDay : ListRequest where
  from_ms := some 5184000000
  to_ms := some 5270400000
  tag := none
  limit := 100
  offset := 0

theorem hundredDays_inOrder : hundredDays.InOrder fun _ => daily := by
  constructor
  · rintro set limit dates hall
    obtain rfl := Option.some.inj hall
    induction limit with
    | zero => rfl
    | succ limit ih =>
      rw [List.range_succ, List.filterMap_append, ← ih rfl]
      by_cases hlt : limit < 100
      · rw [min_eq_left (by omega), min_eq_left hlt.le, List.range_succ, List.map_append]
        simp [daily, hlt]
      · rw [min_eq_right (by omega), min_eq_right (by omega)]
        simp [daily, hlt]
  · rintro set i j a b hij ha hb
    unfold daily at ha hb
    split_ifs at ha hb with hi hj
    obtain rfl := Option.some.inj ha
    obtain rfl := Option.some.inj hb
    rw [Int64.lt_iff_toInt_lt, Int64.toInt_ofNat_of_lt (by omega), Int64.toInt_ofNat_of_lt (by omega)]
    omega

theorem standUpWorld_counted : standUpWorld.Counted := by
  intro id doc h
  change (World.empty.put standUp).docs[id]? = some doc at h
  rw [World.getElem?_put] at h
  split_ifs at h with hid
  · exact ⟨1, le_rfl, hid.symm⟩
  · simp [World.empty] at h

theorem event_list_answers_iff_standUp :
    (∃ all, Answers hundredDays (fun _ => daily) (fun _ => (0, 0)) standUpWorld.events laterDay all) ↔
      Answerable hundredDays (fun _ => daily) (fun _ => (0, 0)) standUpWorld.events laterDay :=
  event_list_answers_iff hundredDays_inOrder standUpWorld_counted

/-- The sixty-first occurrence is not listed, and the event stands for it, outside of the range. -/
theorem later_day_not_answered :
    ¬ ∃ all, Answers hundredDays (fun _ => daily) (fun _ => (0, 0)) standUpWorld.events laterDay
      all := by
  rintro ⟨all, hall⟩
  have hexpands := answerable_of_answers hundredDays_inOrder standUpWorld_counted hall standUp
    (by decide) _ rfl (fun t ht => nomatch ht)
  obtain ⟨set, -, -, -, hevery⟩ := hexpands
  have hsixty : daily 60 = some 5184001000 := by decide
  have hrange : InRange laterDay.from_ms laterDay.to_ms 5184001000 := by decide
  have hlt := (hevery 60 _ hsixty hrange).1
  omega

example : event_list hundredDays (fun _ => (0, 0)) [standUp] laterDay =
    { events := [standUp], total := 1 } := by rfl

end Calendar
