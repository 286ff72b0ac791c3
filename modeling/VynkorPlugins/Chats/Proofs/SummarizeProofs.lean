import VynkorPlugins.Chats.Proofs.StoreProofs
import VynkorPlugins.Chats.Summarize

/-!
# No turn escapes the summaries
-/

namespace Chats

open Rust Transition Async

variable {s s' : Store}

/-! ## What the calls of other tasks do to a row -/

/-- What a call of another task leaves of a row: what it was, or a version under the next revision
    which was summarized as far as before. -/
theorem Rows.of_other {call : Call} {reply : Except String Reply} {table : Table String Session}
    {id : String} {row' : Session} (h : Rows s call reply table)
    (hcall : ∀ id rev result, call ≠ .apply id rev result) (hrow' : table[id]? = some row') :
    s.sessions[id]? = some row' ∨
      row'.rev = s.rev + 1 ∧
        ((∃ cfg p now, call = .resolve cfg p now id ∧ reply = .ok (.resolved id true) ∧
            s.sessions[id]? = none ∧ row'.summarized_rev = 0) ∨
          ∃ row, s.live id = some row ∧ row'.summarized_rev = row.summarized_rev) := by
  -- a row that is written again
  have hwritten : ∀ {id₀ : String} {row row₁ : Session}, s.live id₀ = some row →
      (s.sessions.insert id₀ row₁)[id]? = some row' →
      row₁.rev = s.rev + 1 → row₁.summarized_rev = row.summarized_rev →
      s.sessions[id]? = some row' ∨ row'.rev = s.rev + 1 ∧
        ∃ row, s.live id = some row ∧ row'.summarized_rev = row.summarized_rev := by
    intro id₀ row row₁ hrow h hrev hsum
    rw [Table.getElem?_insert_ite] at h
    split_ifs at h with hid
    · obtain rfl := Option.some.inj h
      exact .inr ⟨hrev, row, hid ▸ hrow, hsum⟩
    · exact .inl h
  cases h with
  | failed | found | undeleted | requeued | saved | unfinished => exact .inl hrow'
  | unapplied | unusable | usable => exact absurd rfl (hcall _ _ _)
  | @created cfg p now id₀ hnone =>
    rw [Table.getElem?_insert_ite] at hrow'
    split_ifs at hrow' with hid
    · obtain rfl := Option.some.inj hrow'
      obtain rfl := hid
      exact .inr ⟨rfl, .inl ⟨cfg, p, now, rfl, rfl, hnone, rfl⟩⟩
    · exact .inl hrow'
  | appended hrow | updated hrow | deleted hrow =>
    exact (hwritten hrow hrow' rfl rfl).imp_right (And.imp_right .inr)
  | finished =>
    rw [Table.getElem?_erase_ite] at hrow'
    split_ifs at hrow'
    exact .inl hrow'

theorem setTitle_error (id : String) (call : Call) (e : String) :
    setTitle id call (.error e) = none := by
  unfold setTitle
  split
  · exact if_neg fun h => nomatch h.2
  · rfl

/-- A live row has the title that the call sets by hand, or keeps one that was set by hand before. -/
theorem Rows.title {call : Call} {reply : Except String Reply} {table : Table String Session}
    {id : String} {row' : Session} (h : Rows s call reply table) (hrow' : table[id]? = some row')
    (hlive : row'.state = .live) :
    (∃ title, setTitle id call reply = some title ∧ row'.title = title ∧ row'.title_manual = true) ∨
      setTitle id call reply = none ∧
        (s.sessions[id]? = none ∨ ∃ row, s.live id = some row ∧
          (row.title_manual = true → row'.title = row.title ∧ row'.title_manual = true)) := by
  -- a row that keeps a title set by hand
  have hkept : ∀ {id₀ : String} {row row₁ : Session}, s.live id₀ = some row →
      (s.sessions.insert id₀ row₁)[id]? = some row' →
      (row.title_manual = true → row₁.title = row.title ∧ row₁.title_manual = true) →
      ∃ row, s.live id = some row ∧
        (row.title_manual = true → row'.title = row.title ∧ row'.title_manual = true) := by
    intro id₀ row row₁ hrow h hmanual
    rw [Table.getElem?_insert_ite] at h
    split_ifs at h with hid
    · obtain rfl := Option.some.inj h
      exact ⟨row, hid ▸ hrow, hmanual⟩
    · exact ⟨row', live_eq_some.mpr ⟨h, hlive⟩, fun hm => ⟨rfl, hm⟩⟩
  have hsame : s.sessions[id]? = some row' → ∃ row, s.live id = some row ∧
      (row.title_manual = true → row'.title = row.title ∧ row'.title_manual = true) :=
    fun h => ⟨row', live_eq_some.mpr ⟨h, hlive⟩, fun hm => ⟨rfl, hm⟩⟩
  cases h with
  | failed => exact .inr ⟨setTitle_error _ _ _, .inr (hsame hrow')⟩
  | found | undeleted | unapplied | requeued | saved | unfinished =>
    exact .inr ⟨rfl, .inr (hsame hrow')⟩
  | created hnone =>
    refine .inr ⟨rfl, ?_⟩
    rw [Table.getElem?_insert_ite] at hrow'
    split_ifs at hrow' with hid
    · exact .inl (hid ▸ hnone)
    · exact .inr (hsame hrow')
  | appended hrow | unusable hrow =>
    exact .inr ⟨rfl, .inr (hkept hrow hrow' fun hm => ⟨rfl, hm⟩)⟩
  | deleted hrow =>
    refine .inr ⟨rfl, ?_⟩
    rw [Table.getElem?_insert_ite] at hrow'
    split_ifs at hrow'
    · obtain rfl := Option.some.inj hrow'
      cases hlive
    · exact .inr (hsame hrow')
  | usable hrow =>
    refine .inr ⟨rfl, .inr (hkept hrow hrow' fun hm => ⟨?_, hm⟩)⟩
    simp only [hm, Bool.not_true, Bool.false_and, Bool.false_eq_true, if_false]
  | @updated id₀ title pinned rev row hrow =>
    cases title with
    | none => exact .inr ⟨rfl, .inr (hkept hrow hrow' fun hm => ⟨rfl, hm⟩)⟩
    | some title =>
      by_cases hid : id₀ = id
      · left
        refine ⟨_, if_pos ⟨hid, rfl⟩, ?_⟩
        rw [Table.getElem?_insert_ite, if_pos hid] at hrow'
        obtain rfl := Option.some.inj hrow'
        simp only [Option.map_some, Option.getD_some, Option.isSome_some, Bool.true_or, and_self]
      · rw [Table.getElem?_insert_ite, if_neg hid] at hrow'
        exact .inr ⟨if_neg fun h => hid h.1, .inr (hsame hrow')⟩
  | finished =>
    rw [Table.getElem?_erase_ite] at hrow'
    split_ifs at hrow'
    exact .inr ⟨rfl, .inr (hsame hrow')⟩

/-- A title is only set for a session that is there. -/
theorem Rows.live_of_setTitle {call : Call} {reply : Except String Reply}
    {table : Table String Session} {id title : String} (h : Rows s call reply table)
    (hset : setTitle id call reply = some title) : ∃ row, s.live id = some row := by
  cases h with
  | failed =>
    rw [setTitle_error] at hset
    cases hset
  | found | undeleted | unapplied | requeued | saved | unfinished | created | appended | deleted
  | unusable | usable | finished => cases hset
  | @updated id₀ title' pinned rev row hrow =>
    cases title' with
    | none => cases hset
    | some title' =>
      simp only [setTitle] at hset
      split_ifs at hset with hid
      exact ⟨row, hid.1 ▸ hrow⟩

/-- A turn that a call adds has the next revision. -/
theorem Effect.turn {ev : Event} (h : Effect s ev s') {k : Nat} {t : Turn}
    (ht : s'.turns[k]? = some t) : s.turns[k]? = some t ∨ t.rev = s.rev + 1 := by
  cases h with
  | nothing | created | edited | marked | requeued | saved | finished => exact .inl ht
  | appended hlt hrow hseq hrev =>
    rw [Table.getElem?_insert_ite] at ht
    split_ifs at ht
    · obtain rfl := Option.some.inj ht
      exact .inr hrev
    · exact .inl ht
  | deleted =>
    rw [Table.getElem?_deleteWhere, Option.filter_eq_some_iff] at ht
    exact .inl ht.1

/-! ## What the lane asks for -/

/-- The candidates of the pass that have not had their result yet. -/
abbrev Pending := List (String × Int)

def Pending.next (v : Pending) : (e : SummaryAwait) → e.Answer → Pending → Prop
  | .candidates .., r, v' =>
    match (r : Except String (List Candidate)) with
    | .ok cands => (cands.map Candidate.id).Nodup ∧ v' = cands.map fun c => (c.id, (c.rev : Int))
    | .error _ => v' = []
  | .chatCompletion _, _, v' => v' = v
  | .apply id .., _, v' => v' = v.filter (·.1 ≠ id)

/-- A result is written at the revision at which its session was read. -/
def summaryProtocol : Protocol SummaryAwait SummaryAwait.Answer Pending where
  allowed v
    | .apply id seen_rev _ => (id, seen_rev) ∈ v
    | _ => True
  next := Pending.next

theorem obeys_summarizeAll {cfg : SummaryConfig} {now : Int} {cands : List Candidate}
    {errors : Nat} {retry : RetryAt} {changed : Bool} {v : Pending}
    (hmem : ∀ c ∈ cands, (c.id, (c.rev : Int)) ∈ v) (hids : (cands.map Candidate.id).Nodup) :
    Obeys summaryProtocol (fun _ _ => True) v (summarizeAll cfg now cands errors retry changed) := by
  induction cands generalizing errors retry changed v with
  | nil => trivial
  | cons cand cands ih =>
    rw [List.map_cons, List.nodup_cons] at hids
    obtain ⟨hcand, hrest⟩ := List.forall_mem_cons.mp hmem
    rw [summarizeAll, perform_bind]
    refine ⟨trivial, fun reply v' hv' => ?_⟩
    obtain rfl : v' = v := hv'
    cases (reply : Except String Json) with
    | error e =>
      dsimp only
      split_ifs
      · trivial
      · exact ih hrest hids.2
    | ok json =>
      refine ⟨hcand, fun applied v'' hv'' => ?_⟩
      obtain rfl : v'' = v'.filter (·.1 ≠ cand.id) := hv''
      -- the other candidates are still pending
      have hkept : ∀ c ∈ cands, (c.id, (c.rev : Int)) ∈ v'.filter (·.1 ≠ cand.id) := by
        intro c hc
        refine List.mem_filter.mpr ⟨hrest c hc, decide_eq_true fun heq => hids.1 ?_⟩
        exact heq ▸ List.mem_map_of_mem hc
      cases (applied : Except String Bool) with
      | error e => exact ih hkept hids.2
      | ok changed' => cases changed' <;> exact ih hkept hids.2

theorem obeys_workLane (cfg : SummaryConfig) (times : List Int) (retry : RetryAt) (v : Pending) :
    Obeys summaryProtocol (fun _ _ => True) v (workLane cfg times retry) := by
  induction times generalizing retry v with
  | nil => trivial
  | cons now nows ih =>
    refine Obeys.bind (Q := fun _ _ => True) ?_ fun v' r _ => ih r.2 v'
    refine ⟨trivial, fun cands v' hv' => ?_⟩
    cases (cands : Except String (List Candidate)) with
    | error e => trivial
    | ok cands =>
      obtain ⟨hids, rfl⟩ := hv'
      refine obeys_summarizeAll (fun c hc => ?_) hids
      exact List.mem_map_of_mem hc

/-! ## Candidates -/

theorem mem_candidates {idle_before : Int} {skip : List String} {c : Candidate}
    (hc : c ∈ candidates s idle_before skip) :
    ∃ row, s.sessions[c.id]? = some row ∧ c.rev = row.rev ∧ row.summarized_rev < row.rev := by
  unfold candidates at hc
  obtain ⟨r, hr, rfl⟩ := List.mem_map.mp hc
  have hmem := List.mem_of_mem_take (List.mem_filter.mp (List.mem_of_mem_take hr)).1
  obtain ⟨hrow, hcand⟩ := Table.mem_selectWhere.mp ((List.mem_insertionSort _).mp hmem)
  exact ⟨r.2, hrow, rfl, (of_decide_eq_true hcand).2.2.2⟩

theorem nodup_candidates (s : Store) (idle_before : Int) (skip : List String) :
    ((candidates s idle_before skip).map Candidate.id).Nodup := by
  have hkeys := Table.nodup_selectWhere s.sessions fun _ row => IsCandidate idle_before row
  unfold candidates
  rw [List.map_map]
  change (List.map Prod.fst _).Nodup
  refine List.Nodup.sublist (((List.take_sublist _ _).trans
    (List.filter_sublist.trans (List.take_sublist _ _))).map Prod.fst) ?_
  exact ((List.perm_insertionSort _ _).map Prod.fst).nodup_iff.mpr hkeys

/-! ## The invariant -/

/-- What holds of the store after a run, whichever process is alive. -/
structure StoreInv (trace : List SummaryLabel) (s : Store) : Prop where
  wellFormed : s.WellFormed
  drawn : Drawn (drawn (callsOf trace)) s
  summarized_le : ∀ (id : String) (row : Session), s.sessions[id]? = some row →
    row.summarized_rev ≤ row.rev
  handled : ∀ id row, s.live id = some row → ∀ (k : Nat) (t : Turn), s.turns[k]? = some t →
    t.session_id = id → row.summarized_rev < row.rev ∨ Handled trace id t.rev
  titles : ∀ id row, s.live id = some row → ∀ title, lastTitle id trace = some title →
    row.title = title ∧ row.title_manual = true
  titled : ∀ id title, lastTitle id trace = some title → id ∈ Chats.drawn (callsOf trace)

/-- A pending candidate has not been summarized up to the revision it was read at. -/
def Waits (trace : List SummaryLabel) (s : Store) (c : String × Int) : Prop :=
  c.1 ∈ drawn (callsOf trace) ∧ ∀ row : Session, s.sessions[c.1]? = some row →
    row.summarized_rev < c.2 ∧ c.2 ≤ row.rev

variable {trace : List SummaryLabel}

theorem Handled.mono {id : String} {rev : Nat} (h : Handled trace id rev) (l : SummaryLabel) :
    Handled (l :: trace) id rev := by
  obtain ⟨i, seen_rev, result, changed, hmem, hle⟩ := h
  exact ⟨i, seen_rev, result, changed, List.mem_cons_of_mem _ hmem, hle⟩

theorem turns_le_row (hs : s.WellFormed) {id : String} {row : Session} (hrow : s.live id = some row)
    {k : Nat} {t : Turn} (ht : s.turns[k]? = some t) (hid : t.session_id = id) : t.rev ≤ row.rev :=
  hs.turns_le id row hrow t (mem_turnRows.mpr ⟨hid, k, ht⟩)

/-- No session is created under an id that was drawn before. -/
theorem not_created {l : CallLabel} (hids : (drawn (l :: callsOf trace)).Nodup) {id : String}
    (hid : id ∈ drawn (callsOf trace)) :
    ¬ ∃ cfg p now, l.call = .resolve cfg p now id ∧ l.reply = .ok (.resolved id true) := by
  rintro ⟨cfg, p, now, hcall, hreply⟩
  have hulid : l.ulid = some id := by rw [CallLabel.ulid, hcall, hreply]
  rw [drawn_cons, hulid, Option.toList_some, List.singleton_append, List.nodup_cons] at hids
  exact hids.1 hid

section Call

variable {l : CallLabel} (hinv : StoreInv trace s) (h : CallStep s l s')
  (hcall : ∀ id rev result, l.call ≠ .apply id rev result)
  (hids : (drawn (l :: callsOf trace)).Nodup)

include hinv h hcall hids

theorem storeInv_call : StoreInv (.env (.call l) :: trace) s' := by
  have hnodup := hids
  rw [drawn_cons] at hnodup
  obtain ⟨hwf, hdrawn⟩ := h.wellFormed hinv.wellFormed hinv.drawn hnodup
  obtain ⟨ev, heff, -, hrows⟩ := perform_cases h.1
  have hold : ∀ {id : String} {row : Session}, s.live id = some row →
      row.summarized_rev < (s.rev + 1 : Nat) := by
    intro id row hrow
    have hmem := (live_eq_some.mp hrow).1
    have hle := hinv.summarized_le id row hmem
    have hrev := hinv.wellFormed.session_rev id row hmem
    omega
  constructor
  case wellFormed => exact hwf
  case drawn =>
    change Drawn (Chats.drawn (l :: callsOf trace)) s'
    rwa [drawn_cons]
  case summarized_le =>
    intro id row' hrow'
    rcases hrows.of_other hcall hrow' with hsame | ⟨hrev, ⟨-, -, -, -, -, -, hsum⟩ | ⟨row, hrow, hsum⟩⟩
    · exact hinv.summarized_le id row' hsame
    · rw [hsum]
      exact Int.natCast_nonneg _
    · rw [hsum, hrev]
      exact (hold hrow).le
  case handled =>
    intro id row' hrow' k t ht hid
    obtain ⟨hmem, hlive⟩ := live_eq_some.mp hrow'
    rcases hrows.of_other hcall hmem with hsame | ⟨hrev, ⟨-, -, -, -, -, -, hsum⟩ | ⟨row, hrow, hsum⟩⟩
    · rcases heff.turn ht with ht | hnew
      · have hrow := live_eq_some.mpr ⟨hsame, hlive⟩
        exact (hinv.handled id row' hrow k t ht hid).imp_right (·.mono _)
      · -- a new turn would have written the row
        have hle := turns_le_row hwf hrow' ht hid
        have hrev := hinv.wellFormed.session_rev id row' hsame
        omega
    · left
      rw [hsum, hrev]
      exact Int.natCast_pos.mpr (Nat.succ_pos _)
    · left
      rw [hsum, hrev]
      exact hold hrow
  case titles =>
    intro id row' hrow' title htitle
    obtain ⟨hmem, hlive⟩ := live_eq_some.mp hrow'
    change (setTitle id l.call l.reply).or (lastTitle id trace) = some title at htitle
    rcases hrows.title hmem hlive with ⟨title', hset, hrest⟩ | ⟨hset, hnone | ⟨row, hrow, hkept⟩⟩
    · rw [hset, Option.some_or] at htitle
      obtain rfl := Option.some.inj htitle
      exact hrest
    · rw [hset, Option.none_or] at htitle
      rcases hrows.of_other hcall hmem with hsame | ⟨-, ⟨cfg, p, now, hcreate, hreply, -⟩ | ⟨row, hrow, -⟩⟩
      · rw [hnone] at hsame
        cases hsame
      · exact absurd ⟨cfg, p, now, hcreate, hreply⟩
          (not_created hids (hinv.titled id title htitle))
      · rw [(live_eq_some.mp hrow).1] at hnone
        cases hnone
    · rw [hset, Option.none_or] at htitle
      obtain ⟨hold, hmanual⟩ := hinv.titles id row hrow title htitle
      obtain ⟨hsame, hmanual⟩ := hkept hmanual
      exact ⟨hsame.trans hold, hmanual⟩
  case titled =>
    intro id title htitle
    change (setTitle id l.call l.reply).or (lastTitle id trace) = some title at htitle
    change id ∈ Chats.drawn (l :: callsOf trace)
    rw [drawn_cons]
    refine List.mem_append_right _ ?_
    cases hset : setTitle id l.call l.reply with
    | none =>
      rw [hset, Option.none_or] at htitle
      exact hinv.titled id title htitle
    | some title' =>
      obtain ⟨row, hrow⟩ := hrows.live_of_setTitle hset
      exact hinv.drawn.1 id row (live_eq_some.mp hrow).1

theorem waits_call {c : String × Int} (hc : Waits trace s c) :
    Waits (.env (.call l) :: trace) s' c := by
  obtain ⟨hdrawn, hwaits⟩ := hc
  constructor
  · change c.1 ∈ drawn (l :: callsOf trace)
    rw [drawn_cons]
    exact List.mem_append_right _ hdrawn
  · intro row' hrow'
    rcases (perform_rows h.1).of_other hcall hrow' with
      hsame | ⟨hrev, ⟨cfg, p, now, hcreate, hreply, -⟩ | ⟨row, hrow, hsum⟩⟩
    · exact hwaits row' hsame
    · exact absurd ⟨cfg, p, now, hcreate, hreply⟩ (not_created hids hdrawn)
    · have hmem := (live_eq_some.mp hrow).1
      obtain ⟨hlt, hle⟩ := hwaits row hmem
      have hle' := hinv.wellFormed.session_rev c.1 row hmem
      rw [hsum, hrev]
      omega

end Call

section Apply

variable {id : String} {seen_rev : Int} {result : Option Summary} {reply : Except String Bool}
  {i : Nat}

/-- A row after a result that was made at a revision at which the session was still a candidate: it is
    summarized further than before, and up to its own revision only if no turn came later. -/
theorem row_of_apply {table : Table String Session} {row' : Session} {id' : String}
    (hs : StoreInv trace s) (hwaits : Waits trace s (id, seen_rev))
    (h : Rows s (.apply id seen_rev result) (reply.map .applied) table)
    (hrow' : table[id']? = some row') :
    s.sessions[id']? = some row' ∨ id' = id ∧ ∃ row, s.live id = some row ∧
      row.summarized_rev ≤ row'.summarized_rev ∧ row'.summarized_rev ≤ row'.rev ∧
        row'.state = .live ∧ (∃ changed, reply = .ok changed) ∧
          (row'.summarized_rev < row'.rev ∨ (row.rev : Int) ≤ seen_rev) := by
  have hlift : ∀ {row : Session}, s.live id = some row →
      row.summarized_rev < seen_rev ∧ seen_rev ≤ row.rev ∧ row.rev ≤ s.rev := by
    intro row hrow
    have hmem := (live_eq_some.mp hrow).1
    have hbounds := hwaits.2 row hmem
    exact ⟨hbounds.1, hbounds.2, hs.wellFormed.session_rev id row hmem⟩
  generalize hmap : reply.map Reply.applied = answer at h
  have hok : ∀ changed, answer = .ok (.applied changed) → ∃ changed, reply = .ok changed := by
    rintro changed rfl
    cases reply with
    | error e => cases hmap
    | ok changed => exact ⟨changed, rfl⟩
  cases h with
  | failed | unapplied => exact .inl hrow'
  | unusable hrow =>
    rw [Table.getElem?_insert_ite] at hrow'
    split_ifs at hrow' with hid
    · obtain rfl := Option.some.inj hrow'
      obtain ⟨hlt, hle, -⟩ := hlift hrow
      refine .inr ⟨hid.symm, _, hrow, ?_⟩
      dsimp only
      rw [max_eq_right hlt.le]
      exact ⟨hlt.le, hle, (live_eq_some.mp hrow).2, hok _ rfl, lt_or_ge _ _⟩
    · exact .inl hrow'
  | @usable _ _ _ row hrow =>
    by_cases hid : id = id'
    · rw [Table.getElem?_insert_ite, if_pos hid] at hrow'
      obtain rfl := Option.some.inj hrow'
      obtain ⟨hlt, hle, hrev⟩ := hlift hrow
      have hlive := (live_eq_some.mp hrow).2
      refine .inr ⟨hid.symm, _, hrow, ?_⟩
      dsimp only
      by_cases heq : (row.rev : Int) = seen_rev
      · rw [if_pos heq]
        exact ⟨by omega, le_rfl, hlive, hok _ rfl, .inr heq.le⟩
      · rw [if_neg heq]
        exact ⟨hlt.le, by omega, hlive, hok _ rfl, .inl (by omega)⟩
    · rw [Table.getElem?_insert_ite, if_neg hid] at hrow'
      exact .inl hrow'

/-- A result adds no turn. -/
theorem turns_of_apply {ev : Event} {answer : Except String Reply} (h : Effect s ev s')
    (hanswers : ev.Answers (.apply id seen_rev result) answer) : s'.turns = s.turns := by
  cases hanswers <;> cases h <;> rfl

variable {fault : Option String} (hinv : StoreInv trace s) (hwaits : Waits trace s (id, seen_rev))
  (h : (Chats.apply id seen_rev result fault).exec s = (reply, s'))

include hinv hwaits h

theorem storeInv_apply : StoreInv (.act i (.apply id seen_rev result) reply :: trace) s' := by
  obtain ⟨ev, heff, hanswers, hrows⟩ := apply_effect h
  have hnew : ∀ id', ev ≠ .created id' := by
    rintro id' rfl
    generalize reply.map Reply.applied = answer at hanswers
    cases hanswers
  have hwf : s'.WellFormed := heff.wellFormed hinv.wellFormed fun id' hev => absurd hev (hnew id')
  have hdrawn := heff.drawn hinv.drawn (fun _ hid => hid) fun id' hev => absurd hev (hnew id')
  constructor
  case wellFormed => exact hwf
  case drawn => exact hdrawn
  case summarized_le =>
    intro id' row' hrow'
    rcases row_of_apply hinv hwaits hrows hrow' with hsame | ⟨-, row, -, -, hle, -⟩
    · exact hinv.summarized_le id' row' hsame
    · exact hle
  case handled =>
    intro id' row' hrow' k t ht hid
    rw [turns_of_apply heff hanswers] at ht
    obtain ⟨hmem, hlive⟩ := live_eq_some.mp hrow'
    rcases row_of_apply hinv hwaits hrows hmem with
      hsame | ⟨rfl, row, hrow, -, -, -, ⟨changed, rfl⟩, hlt | hseen⟩
    · have hrow := live_eq_some.mpr ⟨hsame, hlive⟩
      exact (hinv.handled id' row' hrow k t ht hid).imp_right (·.mono _)
    · exact .inl hlt
    · have hle := turns_le_row hinv.wellFormed hrow ht hid
      exact .inr ⟨i, seen_rev, result, changed, List.mem_cons_self, by omega⟩
  case titles =>
    intro id' row' hrow' title htitle
    obtain ⟨hmem, hlive⟩ := live_eq_some.mp hrow'
    rcases hrows.title hmem hlive with ⟨title', hset, -⟩ | ⟨-, hnone | ⟨row, hrow, hkept⟩⟩
    · cases hset
    · rcases row_of_apply hinv hwaits hrows hmem with hsame | ⟨rfl, row, hrow, -⟩
      · rw [hnone] at hsame
        cases hsame
      · rw [(live_eq_some.mp hrow).1] at hnone
        cases hnone
    · obtain ⟨hold, hmanual⟩ := hinv.titles id' row hrow title htitle
      obtain ⟨hsame, hmanual⟩ := hkept hmanual
      exact ⟨hsame.trans hold, hmanual⟩
  case titled => exact hinv.titled

theorem waits_apply {c : String × Int} (hc : Waits trace s c) (hne : c.1 ≠ id) :
    Waits (.act i (.apply id seen_rev result) reply :: trace) s' c := by
  obtain ⟨ev, -, -, hrows⟩ := apply_effect h
  refine ⟨hc.1, fun row' hrow' => ?_⟩
  rcases row_of_apply hinv hwaits hrows hrow' with hsame | ⟨heq, -⟩
  · exact hc.2 row' hsame
  · exact absurd heq hne

/-- After a result, a session with a turn that came later is a candidate again. -/
theorem candidate_of_apply {row : Session} (hrow : s'.live id = some row) {k : Nat} {t : Turn}
    (ht : s'.turns[k]? = some t) (hid : t.session_id = id) (hlater : seen_rev < t.rev) :
    row.summarized_rev < row.rev := by
  obtain ⟨ev, heff, hanswers, hrows⟩ := apply_effect h
  have hafter := storeInv_apply (i := 0) hinv hwaits h
  rw [turns_of_apply heff hanswers] at ht
  obtain ⟨hmem, hlive⟩ := live_eq_some.mp hrow
  rcases row_of_apply hinv hwaits hrows hmem with hsame | ⟨-, row₀, hrow₀, -, -, -, -, hlt | hseen⟩
  · -- nothing has been written
    have hle := turns_le_row hinv.wellFormed (live_eq_some.mpr ⟨hsame, hlive⟩) ht hid
    have hwaits := (hwaits.2 row hsame).1
    omega
  · exact hlt
  · have hle := turns_le_row hinv.wellFormed hrow₀ ht hid
    omega

end Apply

/-! ## Runs -/

/-- A step that is no call and no result changes nothing that the invariant speaks of. -/
theorem storeInv_cons {l : SummaryLabel} (hinv : StoreInv trace s)
    (hcalls : callsOf (l :: trace) = callsOf trace)
    (htitle : ∀ id, lastTitle id (l :: trace) = lastTitle id trace) : StoreInv (l :: trace) s := by
  refine ⟨hinv.wellFormed, ?_, hinv.summarized_le, fun id row hrow k t ht hid => ?_,
    fun id row hrow title h => ?_, fun id title h => ?_⟩
  · rw [hcalls]
    exact hinv.drawn
  · exact (hinv.handled id row hrow k t ht hid).imp_right (·.mono l)
  · rw [htitle] at h
    exact hinv.titles id row hrow title h
  · rw [hcalls]
    rw [htitle] at h
    exact hinv.titled id title h

/-- The candidates of the process that is alive wait for their results, and no later process has
    read any. -/
structure LaneInv (g : Nat → Pending) (trace : List SummaryLabel) (m : Machine) : Prop where
  store : StoreInv trace m.store
  waits : ∀ c ∈ g m.process, Waits trace m.store c
  idle : ∀ i, m.process < i → g i = []

theorem laneInv_act {g : Nat → Pending} {m m' : Machine} {i : Nat} {e : SummaryAwait} {r : e.Answer}
    (hinv : LaneInv g trace m) (hallowed : summaryProtocol.allowed (g i) e)
    (h : SummaryServed i m e r m') :
    ∃ v, Pending.next (g i) e r v ∧ LaneInv (Function.update g i v) (.act i e r :: trace) m' := by
  obtain ⟨rfl, hserved, hprocess⟩ := h
  obtain ⟨store, process⟩ := m'
  obtain rfl : process = m.process := hprocess
  have hidle : ∀ v j, m.process < j → Function.update g m.process v j = [] := by
    intro v j hj
    rw [Function.update_of_ne (by omega)]
    exact hinv.idle j hj
  cases e with
  | candidates idle_before skip =>
    obtain ⟨rfl, hr⟩ := hserved
    have hstore := storeInv_cons (l := .act m.process (.candidates idle_before skip) r) hinv.store rfl
      fun _ => rfl
    rcases hr with rfl | ⟨e, rfl⟩
    · refine ⟨_, ⟨nodup_candidates _ _ _, rfl⟩, hstore, fun c hc => ?_, hidle _⟩
      rw [Function.update_self] at hc
      obtain ⟨cand, hcand, rfl⟩ := List.mem_map.mp hc
      obtain ⟨row, hrow, hrev, hlt⟩ := mem_candidates hcand
      refine ⟨hinv.store.drawn.1 _ row hrow, fun row' hrow' => ?_⟩
      obtain rfl := Option.some.inj (hrow.symm.trans hrow')
      dsimp only
      rw [hrev]
      exact ⟨hlt, le_rfl⟩
    · refine ⟨[], rfl, hstore, fun c hc => ?_, hidle _⟩
      rw [Function.update_self] at hc
      cases hc
  | chatCompletion params =>
    obtain rfl : store = m.store := hserved
    refine ⟨_, rfl, storeInv_cons hinv.store rfl fun _ => rfl, fun c hc => ?_, hidle _⟩
    rw [Function.update_self] at hc
    exact hinv.waits c hc
  | apply id seen_rev result =>
    obtain ⟨fault, hexec⟩ := hserved
    have hwaits := hinv.waits _ hallowed
    refine ⟨_, rfl, storeInv_apply hinv.store hwaits hexec, fun c hc => ?_, hidle _⟩
    rw [Function.update_self, List.mem_filter, decide_eq_true_eq] at hc
    exact waits_apply hinv.store hwaits hexec (hinv.waits c hc.1) hc.2

theorem next_of_served {v : Pending} {m m' : Machine} {i : Nat} {e : SummaryAwait} {r : e.Answer}
    (h : SummaryServed i m e r m') : ∃ v', Pending.next v e r v' := by
  cases e with
  | candidates idle_before skip =>
    rcases h.2.1.2 with rfl | ⟨e, rfl⟩
    · exact ⟨_, nodup_candidates _ _ _, rfl⟩
    · exact ⟨_, rfl⟩
  | chatCompletion | apply => exact ⟨_, rfl⟩

theorem laneInv_env {g : Nat → Pending} {m m' : Machine} {l : MachineLabel}
    (hinv : LaneInv g trace m) (h : MachineStep m l m')
    (hids : (drawn (callsOf (.env l :: trace))).Nodup) : LaneInv g (.env l :: trace) m' := by
  cases h with
  | call h hcall =>
    refine ⟨storeInv_call hinv.store h hcall hids, fun c hc => ?_, hinv.idle⟩
    exact waits_call hinv.store h hcall hids (hinv.waits c hc)
  | restart =>
    refine ⟨storeInv_cons hinv.store rfl fun _ => rfl, fun c hc => ?_, fun i hi => ?_⟩
    · rw [hinv.idle _ (Nat.lt_succ_self _)] at hc
      cases hc
    · exact hinv.idle i (Nat.lt_of_succ_lt hi)

theorem laneInv_start (g : Nat → Pending) (hg : ∀ i, g i = []) :
    LaneInv g [] { store := .empty, process := 0 } := by
  have hlive : ∀ id row, Store.empty.live id = some row → False := by
    intro id row h
    simp [Store.live, Store.empty] at h
  refine ⟨⟨wellFormed_empty, ?_, ?_, ?_, ?_, ?_⟩, fun c hc => ?_, fun i _ => hg i⟩
  · constructor <;> simp [Store.empty]
  · simp [Store.empty]
  · exact fun id row h => (hlive id row h).elim
  · exact fun id row h => (hlive id row h).elim
  · intro id title h
    cases h
  · rw [hg] at hc
    cases hc

variable {cfg : SummaryConfig} {times : Nat → List Int} {p p' : SummaryPool}

theorem pool_run (hrun : Run SummaryStep (.start cfg times) trace p) :
    PoolInv summaryProtocol (fun _ _ _ => True)
      (fun g trace m => (drawn (callsOf trace)).Nodup → LaneInv g trace m) trace p := by
  refine hrun.invariant (I := PoolInv summaryProtocol (fun _ _ _ => True)
    (fun g trace m => (drawn (callsOf trace)).Nodup → LaneInv g trace m)) ?_ ?_
  · exact ⟨fun _ => [], fun _ => laneInv_start _ fun _ => rfl, fun i => obeys_workLane _ _ _ _⟩
  · intro trace p l p' hinv hstep
    refine hinv.step ?_ ?_ hstep
    · intro g trace w i e r w' hI hallowed hw
      by_cases hids : (drawn (callsOf trace)).Nodup
      · obtain ⟨v, hv, hinv⟩ := laneInv_act (hI hids) hallowed hw
        exact ⟨v, hv, fun _ => hinv⟩
      · obtain ⟨v, hv⟩ := next_of_served hw
        exact ⟨v, hv, fun h => absurd h hids⟩
    · intro g trace w l w' hI hw hids
      have hsub : (drawn (callsOf trace)).Sublist (drawn (callsOf (.env l :: trace))) :=
        ((List.sublist_cons_self _ trace).filterMap _).filterMap _
      exact laneInv_env (hI (hids.sublist hsub)) hw hids

theorem summarized_le_act {g : Nat → Pending} {m m' : Machine} {i : Nat} {e : SummaryAwait}
    {r : e.Answer} (hinv : LaneInv g trace m) (hallowed : summaryProtocol.allowed (g i) e)
    (h : SummaryServed i m e r m') {id : String} {row row' : Session}
    (hrow : m.store.sessions[id]? = some row) (hrow' : m'.store.sessions[id]? = some row') :
    row.summarized_rev ≤ row'.summarized_rev := by
  obtain ⟨rfl, hserved, -⟩ := h
  have hsame : m'.store = m.store → row.summarized_rev ≤ row'.summarized_rev := by
    intro heq
    rw [heq, hrow] at hrow'
    obtain rfl := Option.some.inj hrow'
    exact le_rfl
  cases e with
  | candidates => exact hsame hserved.1
  | chatCompletion => exact hsame hserved
  | apply id₀ seen_rev result =>
    obtain ⟨fault, hexec⟩ := hserved
    obtain ⟨ev, -, -, hrows⟩ := apply_effect hexec
    rcases row_of_apply hinv.store (hinv.waits _ hallowed) hrows hrow' with
      hkept | ⟨rfl, row₀, hrow₀, hle, -⟩
    · obtain rfl := Option.some.inj (hrow.symm.trans hkept)
      exact le_rfl
    · obtain rfl := Option.some.inj (hrow.symm.trans (live_eq_some.mp hrow₀).1)
      exact hle

theorem summarized_le_env {m m' : Machine} {l : MachineLabel} (h : MachineStep m l m')
    {id : String} {row row' : Session} (hrow : m.store.sessions[id]? = some row) (hrow' : m'.store.sessions[id]? = some row') :
    row.summarized_rev ≤ row'.summarized_rev := by
  cases h with
  | call h hcall =>
    rcases (perform_rows h.1).of_other hcall hrow' with
      hsame | ⟨-, ⟨-, -, -, -, -, hnone, -⟩ | ⟨row₀, hrow₀, hsum⟩⟩
    · obtain rfl := Option.some.inj (hrow.symm.trans hsame)
      exact le_rfl
    · rw [hnone] at hrow
      cases hrow
    · obtain rfl := Option.some.inj (hrow.symm.trans (live_eq_some.mp hrow₀).1)
      exact hsum.ge
  | restart =>
    obtain rfl := Option.some.inj (hrow.symm.trans hrow')
    exact le_rfl

theorem isCandidate_act {g : Nat → Pending} {m m' : Machine} {i : Nat} {id : String}
    {seen_rev : Int} {result : Option Summary} {reply : Except String Bool}
    (hinv : LaneInv g trace m)
    (hallowed : summaryProtocol.allowed (g i) (.apply id seen_rev result))
    (h : SummaryServed i m (.apply id seen_rev result) reply m') {row : Session}
    (hrow : m'.store.live id = some row) {t : Turn} (ht : t ∈ m'.store.sessionTurns id)
    (hlater : seen_rev < t.rev) {idle_before : Int} (hidle : row.last_at ≤ idle_before) :
    IsCandidate idle_before row := by
  obtain ⟨rfl, ⟨fault, hexec⟩, -⟩ := h
  have hwaits := hinv.waits _ hallowed
  have hwf := (storeInv_apply (i := 0) hinv.store hwaits hexec).wellFormed
  rw [sessionTurns_eq hwf hrow] at ht
  obtain ⟨hid, k, hk⟩ := mem_turnRows.mp ht
  have hturns : 0 < row.turns := by
    have hlen := congrArg List.length (hwf.turns_seq id row hrow)
    rw [List.length_map, List.length_range'] at hlen
    have hpos := List.length_pos_of_mem ht
    omega
  exact ⟨(live_eq_some.mp hrow).2, hturns, hidle,
    candidate_of_apply hinv.store hwaits hexec hrow hk hid hlater⟩

/-- In every run of passes beside other calls, and over restarts: a turn that no result covers keeps
    its session a candidate, a title set by hand stays, no session is ever summarized less far, and
    after a result a session with a later turn is a candidate again as soon as it is idle. -/
theorem no_turn_escapes (hrun : Run SummaryStep (.start cfg times) trace p)
    (hids : (drawn (callsOf trace)).Nodup) :
    (∀ id row, p.world.store.live id = some row → ∀ t ∈ p.world.store.sessionTurns id,
      row.summarized_rev < row.rev ∨ Handled trace id t.rev) ∧
    (∀ id row title, p.world.store.live id = some row → lastTitle id trace = some title →
      row.title = title) ∧
    ∀ l p', SummaryStep p l p' → (drawn (callsOf (l :: trace))).Nodup →
      (∀ (id : String) (row row' : Session), p.world.store.sessions[id]? = some row →
        p'.world.store.sessions[id]? = some row' → row.summarized_rev ≤ row'.summarized_rev) ∧
      ∀ i id seen_rev result reply, l = .act i (.apply id seen_rev result) reply →
        ∀ row, p'.world.store.live id = some row →
          (∃ t ∈ p'.world.store.sessionTurns id, seen_rev < t.rev) →
            ∀ idle_before, row.last_at ≤ idle_before → IsCandidate idle_before row := by
  obtain ⟨g, hI, hobeys⟩ := pool_run hrun
  have hinv := hI hids
  refine ⟨fun id row hrow t ht => ?_, fun id row title hrow htitle => ?_, ?_⟩
  · rw [sessionTurns_eq hinv.store.wellFormed hrow, mem_turnRows] at ht
    obtain ⟨hid, k, hk⟩ := ht
    exact hinv.store.handled id row hrow k t hk hid
  · exact (hinv.store.titles id row hrow title htitle).1
  · intro l p' hstep hids'
    cases hstep with
    | @act i e k r w htask hw =>
      have hallowed := hobeys i
      rw [htask] at hallowed
      refine ⟨fun id row row' => summarized_le_act hinv hallowed.1 hw, ?_⟩
      rintro i' id seen_rev result reply hl row hrow ⟨t, ht, hlater⟩ idle_before hidle
      cases hl
      exact isCandidate_act hinv hallowed.1 hw hrow ht hlater hidle
    | env hw =>
      exact ⟨fun id row row' => summarized_le_env hw, fun _ _ _ _ _ hl => nomatch hl⟩

/-- A turn arrives while `ai` is asked for a summary of its session. -/
def turnMeanwhile : List MachineRequest :=
  let append (now : Int) (ulid : String) : CallRequest :=
    (.append {} ⟨"S1", "hi", "hello", "ok", .null, none⟩ now ulid, none)
  [.call (.resolve {} ⟨"lap", "chat", "", none⟩ 1000 "S1", none), .call (append 1001 "T1"),
    .act (.ok .null), .call (append 1002 "T2"),
    .act (.ok (.obj [("content", .str "\x7b\"summary\":\"hello\"\x7d")]))]

def meanwhileStart : SummaryPool :=
  .start { fromStr := Json.read, toLowercase := String.toLower } fun _ => [2000000]

def meanwhileRun : List SummaryLabel × SummaryPool :=
  (runOf answerMachine meanwhileStart turnMeanwhile).get (by decide)

def meanwhileLast : SummaryLabel × SummaryPool :=
  (answerMachine meanwhileRun.2 (.act (.ok .null))).get (by decide)

/-- The session and the revision of the result that a step writes. -/
def resultOf : SummaryLabel → Option (Nat × String × Int)
  | .act i (.apply id seen_rev _) _ => some (i, id, seen_rev)
  | _ => none

theorem of_resultOf {l : SummaryLabel} {i : Nat} {id : String} {seen_rev : Int}
    (h : resultOf l = some (i, id, seen_rev)) :
    ∃ result reply, l = .act i (.apply id seen_rev result) reply := by
  rcases l with ⟨i, e, r⟩ | l
  · cases e with
    | candidates | chatCompletion => cases h
    | apply id seen_rev result =>
      obtain ⟨rfl, rfl, rfl⟩ := Option.some.inj h
      exact ⟨result, r, rfl⟩
  · cases h

theorem no_turn_escapes_meanwhile :
    ∃ row, meanwhileLast.2.world.store.live "S1" = some row ∧ IsCandidate 2000 row := by
  have hrun : Run SummaryStep meanwhileStart meanwhileRun.1 meanwhileRun.2 :=
    run_runOf (fun _ _ _ _ => summaryStep_answerMachine) (Option.some_get _).symm
  have hanswer : answerMachine meanwhileRun.2 (.act (.ok .null)) = some meanwhileLast :=
    (Option.some_get _).symm
  have hstep : SummaryStep meanwhileRun.2 meanwhileLast.1 meanwhileLast.2 :=
    summaryStep_answerMachine hanswer
  have hids : (drawn (callsOf meanwhileRun.1)).Nodup := by decide +kernel
  have hids' : (drawn (callsOf (meanwhileLast.1 :: meanwhileRun.1))).Nodup := by decide +kernel
  have hresult : resultOf meanwhileLast.1 = some (0, "S1", 2) := by decide +kernel
  have hidle : (meanwhileLast.2.world.store.live "S1").map Session.last_at = some 1002 := by
    decide +kernel
  have hturn : ∃ t ∈ meanwhileLast.2.world.store.sessionTurns "S1", (2 : Int) < t.rev := by
    decide +kernel
  obtain ⟨result, reply, hact⟩ := of_resultOf hresult
  obtain ⟨row, hrow, hlast⟩ := Option.map_eq_some_iff.mp hidle
  have hcandidate := ((no_turn_escapes hrun hids).2.2 _ _ hstep hids').2 0 "S1" 2 result reply hact
    row hrow hturn 2000 (by omega)
  exact ⟨row, hrow, hcandidate⟩

end Chats
