import VynkorPlugins.Agent.Engine

/-!
# What the engine may do

First what it does by any protocol that effects about no goal do not move: it filters the catalog, adds a
turn to the transcript, and prunes the store.

Every request for a tool that a task sends is covered by the catalog that the task has loaded, or by a
confirmation that the operator has approved. A goal that is answered has come to an end or halts, and its
document is stored.
-/

namespace Agent

open Async Stateful Transition

/-! ## Effects that are about no goal -/

section Quiet

/-- Effects that are about no goal of the task. -/
def Quiet : Eff → Prop
  | .sessions | .vec_query _ | .recall _ | .chat .. | .sleep _ | .db_keys | .db_batch_get _
  | .db_delete _ => True
  | _ => False

variable {S α : Type} {P : Protocol Eff Eff.Answer S}

/-- Quiet effects are allowed at any time, and move nothing. -/
def Undisturbed (P : Protocol Eff Eff.Answer S) : Prop :=
  ∀ k e, Quiet e → P.allowed k e ∧ ∀ r k', P.next k e r k' → k' = k

variable {k : S} {doc : GoalDoc} {llm : Llm} {config : Config}

theorem ensures_quiet_bind {e : Eff} {Q : S → Except String α → GoalDoc → Prop} {f : e.Answer → Engine α}
    (hP : Undisturbed P) (he : Quiet e) (h : ∀ r, Ensures P Q k doc (f r)) :
    Ensures P Q k doc (Stateful.await e >>= f) := by
  refine ensures_await_bind (hP k e he).1 fun r k' hk' => ?_
  obtain rfl := (hP k e he).2 r k' hk'
  exact h r

theorem obeys_quiet_bind {β : Type} {e : Eff} {Q : S → β → Prop} {f : e.Answer → Act β} (hP : Undisturbed P)
    (he : Quiet e) (h : ∀ r, Obeys P Q k (f r)) : Obeys P Q k (Agent.await e >>= f) := by
  refine ⟨(hP k e he).1, fun r k' hk' => ?_⟩
  obtain rfl := (hP k e he).2 r k' hk'
  exact h r

/-- The turn is added, even to a transcript that gets too long. -/
theorem ensures_push_turn (role content : String) :
    Ensures P (fun k' _ doc' => k' = k ∧ doc' = doc.push_turn role content) k doc (push_turn role content) := by
  refine ensures_modify_bind (ensures_get_bind ?_)
  split
  · exact ensures_throw ⟨rfl, rfl⟩
  · exact ensures_pure ⟨rfl, rfl⟩

/-! ## The catalog that the model is shown -/

/-- The hits narrow the catalog, where there are any. -/
theorem ensures_narrowed (llm : Llm) (catalog : Catalog) (hint : String) {hits : Option (List String)}
    (hpanic : hits ≠ none → P.allowed k .panic) :
    Ensures P (fun k' r doc' => k' = k ∧ doc' = doc ∧ ∃ c, r = .ok c) k doc
      (match hits.bind (embedding_filtered catalog) with
        | none => pure (llm.filtered_catalog catalog doc.goal hint)
        | some emb =>
          match Rust.truncate doc.goal 60 with
          | none => do
            let stopped ← Stateful.await .panic
            nomatch stopped
          | some _ => pure emb) := by
  cases hhits : hits.bind (embedding_filtered catalog) with
  | none => exact ensures_pure ⟨rfl, rfl, _, rfl⟩
  | some emb =>
    dsimp only
    split
    · refine ensures_await_bind (hpanic ?_) fun r => r.elim
      rintro rfl
      cases hhits
    · exact ensures_pure ⟨rfl, rfl, _, rfl⟩

/-- The catalog is filtered, unless the filter panics. -/
theorem ensures_effective_catalog (hP : Undisturbed P)
    (hpanic : config.embedding_filter = true → P.allowed k .panic) (llm : Llm) (catalog : Catalog)
    (hint : String) :
    Ensures P (fun k' r doc' => k' = k ∧ doc' = doc ∧ ∃ c, r = .ok c) k doc
      (effective_catalog llm config catalog hint) := by
  refine ensures_get_bind ?_
  dsimp only
  split
  · rename_i hfilter
    exact ensures_quiet_bind hP trivial fun hits =>
      ensures_narrowed llm catalog hint fun _ => hpanic hfilter.1
  · exact ensures_narrowed llm catalog hint fun h => absurd rfl h

/-! ## Retention -/

theorem obeys_fetch_summaries (hP : Undisturbed P) (chunks : List (List String)) :
    Obeys P (fun k' _ => k' = k) k (fetch_summaries chunks) := by
  induction chunks with
  | nil => rfl
  | cons chunk chunks ih =>
    refine obeys_quiet_bind hP trivial fun r => ?_
    cases r with
    | error e => rfl
    | ok docs =>
      dsimp only
      cases summaries docs with
      | error e => rfl
      | ok fetched =>
        refine Obeys.bind ih ?_
        rintro k₂ r rfl
        cases r with
        | error e => rfl
        | ok rest => rfl

theorem obeys_delete_all (hP : Undisturbed P) (ids : List String) :
    Obeys P (fun k' _ => k' = k) k (delete_all ids) := by
  induction ids with
  | nil => rfl
  | cons id ids ih =>
    refine obeys_quiet_bind hP trivial fun r => ?_
    cases r with
    | error e => rfl
    | ok deleted => exact ih

theorem obeys_prune (hP : Undisturbed P) (limit : Option Nat) :
    Obeys P (fun k' _ => k' = k) k (prune limit) := by
  cases limit with
  | none => rfl
  | some limit =>
    refine obeys_quiet_bind hP trivial fun r => ?_
    cases r with
    | error e => rfl
    | ok keys =>
      by_cases hfew : keys.length ≤ limit
      · show Obeys _ _ _ (if keys.length ≤ limit then _ else _)
        rw [if_pos hfew]
        rfl
      · show Obeys _ _ _ (if keys.length ≤ limit then _ else _)
        rw [if_neg hfew]
        refine Obeys.bind (obeys_fetch_summaries hP _) ?_
        rintro k₂ r rfl
        cases r with
        | error e => rfl
        | ok candidates => exact obeys_delete_all hP _

end Quiet

/-! ## What a task knows -/

/-- The catalog lets the engine call the tool without a confirmation. -/
def Catalog.Frees (catalog : Catalog) (name : String) (timeout_ms : Nat) : Prop :=
  ∃ spec, catalog.get name = some spec ∧ spec.requires_confirmation = false ∧
    spec.timeout_ms = timeout_ms

/-- The catalog has the tool confirmed. -/
def Catalog.Guards (catalog : Catalog) (name : String) : Prop :=
  ∃ spec, catalog.get name = some spec ∧ spec.requires_confirmation = true

/-- The goal awaits the confirmation of a call. -/
structure GoalDoc.Awaits (doc : GoalDoc) (name : String) (params : Json) : Prop where
  status : doc.status = .needs_confirmation
  tool : doc.pending_tool = name
  params : doc.pending_params = params

/-- What a task was told by the others: its catalog, the goal whose call was approved, and the document that
    the database has taken last. -/
structure Known where
  catalog : Option Catalog
  approved : Option GoalDoc
  stored : Option GoalDoc

namespace Known

def start : Known where
  catalog := none
  approved := none
  stored := none

def learn (k : Known) : (e : Eff) → e.Answer → Known
  | .load_catalog, .ok catalog => { k with catalog := some catalog }
  | .db_get (.resume_goal true) _, .ok (some doc) => { k with approved := some doc }
  | .db_set _ doc, .ok () => { k with stored := some doc }
  | .db_set _ _, .error _ => { k with stored := none }
  | _, _ => k

/-- A confirmed call was refused for its quota. -/
def Refused (k : Known) : Prop :=
  ∃ catalog ∈ k.catalog, ∃ doc ∈ k.approved, ∃ spec, catalog.get doc.pending_tool = some spec ∧
    ∃ now e, check_quota doc spec now = .error e

def Allowed (config : Config) (k : Known) : Eff → Prop
  | .rpc_call goal_id _ name params timeout_ms =>
    ∃ catalog ∈ k.catalog, catalog.Frees name timeout_ms ∨
      ∃ doc ∈ k.approved, doc.id = goal_id ∧ doc.Awaits name params
  | .db_set writer doc =>
    doc.status = .needs_confirmation →
      writer = .engine ∧ ∃ catalog ∈ k.catalog, catalog.Guards doc.pending_tool
  | .reply (.ok (.goal doc)) => k.stored = some doc ∧ (doc.status = .running → k.Refused)
  | .panic => config.embedding_filter = true
  | .hang => False
  | _ => True

/-- The catalog and the approval are the same. -/
structure Same (k k' : Known) : Prop where
  catalog : k'.catalog = k.catalog
  approved : k'.approved = k.approved

variable {k k' k'' : Known}

theorem Same.refl (k : Known) : Same k k := ⟨rfl, rfl⟩

theorem Same.trans (h : Same k k') (h' : Same k' k'') : Same k k'' :=
  ⟨h'.catalog.trans h.catalog, h'.approved.trans h.approved⟩

theorem Same.refused (h : Same k k') (hr : k.Refused) : k'.Refused := by
  unfold Refused
  rw [h.catalog, h.approved]
  exact hr

end Known

def knownProtocol (config : Config) : Protocol Eff Eff.Answer Known :=
  .ofLearn (Known.Allowed config) Known.learn

theorem undisturbed_known (config : Config) : Undisturbed (knownProtocol config) := by
  intro k e he
  cases e <;> first
    | exact ⟨trivial, fun _ _ h => h⟩
    | cases he

/-! ## The engine -/

variable {llm : Llm} {config : Config} {k : Known} {doc : GoalDoc}

/-- The document is written as it is, but for its time. -/
theorem ensures_persist
    (h : doc.status = .needs_confirmation → ∃ catalog ∈ k.catalog, catalog.Guards doc.pending_tool) :
    Ensures (knownProtocol config) (fun k' r doc' => k.Same k' ∧ ∃ now,
      doc' = { doc with updated_at_ms := now } ∧ (r = .ok () → k'.stored = some doc')) k doc persist := by
  refine ensures_await_bind trivial fun now k₁ hk₁ => ?_
  obtain rfl : k₁ = k := hk₁
  refine ensures_modify_bind (ensures_get_bind (ensures_await_bind (fun hs => ⟨rfl, h hs⟩) ?_))
  rintro r k₂ rfl
  cases r with
  | error e => exact ensures_throw ⟨⟨rfl, rfl⟩, now, rfl, by rintro ⟨⟩⟩
  | ok u => exact ensures_pure ⟨⟨rfl, rfl⟩, now, rfl, fun _ => rfl⟩

/-- What a part of a turn that takes `n` steps or more leaves of a document. -/
structure GoalDoc.Goes (n : Nat) (doc doc' : GoalDoc) : Prop where
  id : doc'.id = doc.id
  max_steps : doc'.max_steps = doc.max_steps
  status : doc'.status = doc.status
  budget : doc.budgetSteps + n ≤ doc'.budgetSteps

theorem GoalDoc.Goes.trans {n m : Nat} {doc doc' doc'' : GoalDoc} (h : doc.Goes n doc')
    (h' : doc'.Goes m doc'') : doc.Goes (n + m) doc'' := by
  refine ⟨h'.id.trans h.id, h'.max_steps.trans h.max_steps, h'.status.trans h.status, ?_⟩
  have hfirst := h.budget
  have hsecond := h'.budget
  omega

theorem goes_push_turn (doc : GoalDoc) (role content : String) : doc.Goes 0 (doc.push_turn role content) :=
  ⟨rfl, rfl, rfl, le_rfl⟩

theorem goes_next_step {kind : StepKind} (h : kind ≠ .final) (doc : GoalDoc) (detail : Json) :
    doc.Goes 1 (doc.next_step kind detail) :=
  ⟨rfl, rfl, rfl, (GoalDoc.budgetSteps_next_step h detail).ge⟩

/-- The document of a running goal is stored. -/
theorem ensures_persist_running (hstatus : doc.status = .running) :
    Ensures (knownProtocol config) (fun k' r doc' => k.Same k' ∧ doc.Goes 0 doc' ∧
      (r = .ok () → k'.stored = some doc')) k doc persist := by
  refine (ensures_persist fun h => ?_).mono ?_
  · rw [hstatus] at h
    cases h
  · rintro k' r doc' ⟨hsame, now, rfl, hstored⟩
    exact ⟨hsame, ⟨rfl, rfl, rfl, le_rfl⟩, hstored⟩

/-- An observation is a step. -/
theorem ensures_dispatch_and_observe {timeout_ms : Nat} {name : String} {params : Json}
    (h : ∀ retry, k.Allowed config (.rpc_call doc.id retry name params timeout_ms)) :
    Ensures (knownProtocol config) (fun k' r doc' => k' = k ∧ (r = .ok () → doc.Goes 1 doc')) k doc
      (dispatch_and_observe timeout_ms name params) := by
  have hobserve : ∀ (content : String) (kind : StepKind) (detail : Json), kind ≠ .final →
      Ensures (knownProtocol config) (fun k' r doc' => k' = k ∧ (r = .ok () → doc.Goes 1 doc')) k doc
        (push_turn "user" content >>= fun _ => next_step kind detail) := by
    intro content kind detail hkind
    refine (ensures_push_turn "user" content).bind ?_ fun k' s' e h => ⟨h.1, by rintro ⟨⟩⟩
    rintro k' doc' ⟨⟩ ⟨rfl, rfl⟩
    exact ensures_modify ⟨rfl, fun _ =>
      (goes_push_turn doc "user" content).trans (goes_next_step hkind _ detail)⟩
  refine ensures_get_bind (ensures_await_bind (h false) ?_)
  rintro outcome k₁ rfl
  cases outcome with
  | ok v => exact hobserve _ _ _ (by decide)
  | error e =>
    dsimp only
    split
    · -- the second request is covered as the first one is
      refine ensures_await_bind trivial ?_
      rintro - k₁ rfl
      refine ensures_await_bind (h true) ?_
      rintro outcome k₁ rfl
      cases outcome with
      | ok v => exact hobserve _ _ _ (by decide)
      | error e => exact hobserve _ _ _ (by decide)
    · exact hobserve _ _ _ (by decide)

/-- A call that is refused is a step, too. -/
theorem ensures_refuse_call {name e : String} (hstatus : doc.status = .running) :
    Ensures (knownProtocol config) (fun k' r doc' => k.Same k' ∧
      (r = .ok () → doc.Goes 1 doc' ∧ k'.stored = some doc')) k doc (refuse_call name e) := by
  refine (ensures_push_turn "user" _).bind ?_ fun k' s' e h => ⟨h.1 ▸ .refl _, by rintro ⟨⟩⟩
  rintro k' doc' ⟨⟩ ⟨rfl, rfl⟩
  refine ensures_modify_bind (Ensures.mono (ensures_persist_running ?_) ?_)
  · exact hstatus
  rintro k' r doc' ⟨hsame, hgoes, hstored⟩
  refine ⟨hsame, fun hok => ⟨?_, hstored hok⟩⟩
  exact ((goes_push_turn doc "user" _).trans (goes_next_step (by decide) _ _)).trans hgoes

theorem ensures_dispatch_counted {spec : ToolSpec} {name : String} {params : Json}
    (hstatus : doc.status = .running)
    (h : ∀ retry, k.Allowed config (.rpc_call doc.id retry name params spec.timeout_ms)) :
    Ensures (knownProtocol config) (fun k' r doc' => k.Same k' ∧ (r = .ok () → doc.Goes 1 doc')) k doc
      (dispatch_counted spec name params) := by
  refine ensures_await_bind trivial fun now k₁ hk₁ => ?_
  obtain rfl : k₁ = k := hk₁
  have hcounted : doc.Goes 0 (doc.counted name now) := ⟨rfl, rfl, rfl, le_rfl⟩
  refine ensures_modify_bind (Ensures.bind (ensures_dispatch_and_observe ?_) ?_ ?_)
  · exact h
  · rintro k' doc' ⟨⟩ ⟨rfl, hdoc⟩
    have hgoes := hcounted.trans (hdoc rfl)
    refine (ensures_persist_running (hgoes.status.trans hstatus)).mono ?_
    rintro k' r doc'' ⟨hsame, hgoes', -⟩
    exact ⟨hsame, fun _ => hgoes.trans hgoes'⟩
  · rintro k' doc' e ⟨rfl, -⟩
    exact ⟨.refl _, by rintro ⟨⟩⟩

/-- The document is stored with a status that the goal ends or halts with. -/
theorem ensures_persist_ended (hstatus : doc.status ≠ .running)
    (h : doc.status = .needs_confirmation → ∃ catalog ∈ k.catalog, catalog.Guards doc.pending_tool) :
    Ensures (knownProtocol config) (fun k' r doc' => k.Same k' ∧
      (r = .ok () → k'.stored = some doc' ∧ doc'.status ≠ .running)) k doc persist := by
  refine (ensures_persist h).mono ?_
  rintro k' r doc' ⟨hsame, now, rfl, hstored⟩
  exact ⟨hsame, fun hok => ⟨hstored hok, hstatus⟩⟩

theorem ensures_fail_goal (e : String) :
    Ensures (knownProtocol config) (fun k' r doc' => k.Same k' ∧
      (r = .ok () → k'.stored = some doc' ∧ doc'.status ≠ .running)) k doc (fail_goal e) :=
  ensures_modify_bind (ensures_modify_bind (ensures_persist_ended (by rintro ⟨⟩) (by rintro ⟨⟩)))

/-- The model has answered, or the goal has failed. -/
def Asked (k : Known) (doc : GoalDoc) (k' : Known) (r : Except String (Option ChatOutcome))
    (doc' : GoalDoc) : Prop :=
  k.Same k' ∧ match r with
    | .ok (some _) => doc.Goes 0 doc'
    | .ok none => k'.stored = some doc' ∧ doc'.status ≠ .running
    | .error _ => True

theorem ensures_ask_model (llm : Llm) (llm_catalog : Catalog) :
    Ensures (knownProtocol config) (Asked k doc) k doc (ask_model llm llm_catalog) := by
  have hfail : ∀ (doc' : GoalDoc) (e : String), Ensures (knownProtocol config) (Asked k doc) k doc'
      (fail_goal e >>= fun _ => pure (none : Option ChatOutcome)) := by
    intro doc' e
    refine (ensures_fail_goal e).bind ?_ fun k' s' e h => ⟨h.1, trivial⟩
    rintro k' doc'' ⟨⟩ ⟨hsame, hended⟩
    exact ensures_pure ⟨hsame, hended rfl⟩
  refine ensures_get_bind (ensures_await_bind trivial ?_)
  rintro outcome k₁ rfl
  cases outcome with
  | ok outcome => exact ensures_pure ⟨.refl _, rfl, rfl, rfl, le_rfl⟩
  | error e =>
    dsimp only
    split
    · refine ensures_modify_bind (Ensures.bind (ensures_push_turn "user" _) ?_ ?_)
      · rintro k' doc' ⟨⟩ ⟨rfl, rfl⟩
        refine ensures_get_bind (ensures_await_bind trivial ?_)
        rintro outcome k₁ rfl
        cases outcome with
        | ok outcome => exact ensures_pure ⟨.refl _, rfl, rfl, rfl, le_rfl⟩
        | error e => exact hfail _ e
      · rintro k' doc' e ⟨rfl, -⟩
        exact ⟨.refl _, trivial⟩
    · exact hfail _ e

/-- A part of a turn goes on, or its document is stored with a status that the goal ends or halts with. -/
def Turned (k : Known) (doc : GoalDoc) (k' : Known) (r : Except String Bool) (doc' : GoalDoc) : Prop :=
  k.Same k' ∧ match r with
    | .ok true => doc.Goes 1 doc'
    | .ok false => k'.stored = some doc' ∧ doc'.status ≠ .running
    | .error _ => True

theorem Turned.of_goes {k' : Known} {doc' : GoalDoc} {r : Except String Bool} {k'' : Known} {doc'' : GoalDoc}
    (hsame : k.Same k') (hgoes : doc.Goes 0 doc') (h : Turned k' doc' k'' r doc'') :
    Turned k doc k'' r doc'' := by
  refine ⟨hsame.trans h.1, ?_⟩
  have hr := h.2
  rcases r with e | goes_on
  · trivial
  · cases goes_on with
    | false => exact hr
    | true =>
      have hall := hgoes.trans hr
      rwa [Nat.zero_add] at hall

theorem ensures_finish_goal (answer : String) :
    Ensures (knownProtocol config) (fun k' r doc' => k.Same k' ∧
      (r = .ok () → k'.stored = some doc' ∧ doc'.status ≠ .running)) k doc (finish_goal answer) :=
  ensures_modify_bind (ensures_modify_bind (ensures_persist_ended (by rintro ⟨⟩) (by rintro ⟨⟩)))

theorem ensures_tool_call {catalog : Catalog} (hcatalog : k.catalog = some catalog)
    (hstatus : doc.status = .running) (name : String) (params : Json) :
    Ensures (knownProtocol config) (Turned k doc) k doc (tool_call catalog name params) := by
  unfold tool_call
  split
  · -- the catalog does not have it
    refine Ensures.bind (ensures_push_turn "user" _) ?_ ?_
    · rintro k' doc' ⟨⟩ ⟨rfl, rfl⟩
      refine ensures_modify_bind (Ensures.bind (ensures_persist_running ?_) ?_ ?_)
      · exact hstatus
      · rintro k'' doc'' ⟨⟩ ⟨hsame, hgoes, -⟩
        refine ensures_pure ⟨hsame, ?_⟩
        exact ((goes_push_turn doc "user" _).trans (goes_next_step (by decide) _ _)).trans hgoes
      · rintro k'' doc'' e ⟨hsame, -⟩
        exact ⟨hsame, trivial⟩
    · rintro k' doc' e ⟨rfl, -⟩
      exact ⟨.refl _, trivial⟩
  · rename_i spec hspec
    split
    · -- the goal halts
      rename_i hconfirm
      refine ensures_modify_bind (ensures_modify_bind
        (Ensures.bind (ensures_persist_ended (by rintro ⟨⟩) ?_) ?_ ?_))
      · exact fun _ => ⟨catalog, hcatalog, spec, hspec, hconfirm⟩
      · rintro k' doc' ⟨⟩ ⟨hsame, hended⟩
        exact ensures_pure ⟨hsame, hended rfl⟩
      · rintro k' doc' e ⟨hsame, -⟩
        exact ⟨hsame, trivial⟩
    · rename_i hconfirm
      refine ensures_await_bind trivial fun now k₁ hk₁ => ?_
      obtain rfl : k₁ = k := hk₁
      refine ensures_get_bind ?_
      split
      · refine Ensures.bind (ensures_refuse_call hstatus) ?_ ?_
        · rintro k' doc' ⟨⟩ ⟨hsame, hrefused⟩
          exact ensures_pure ⟨hsame, (hrefused rfl).1⟩
        · rintro k' doc' e ⟨hsame, -⟩
          exact ⟨hsame, trivial⟩
      · refine Ensures.bind (ensures_dispatch_counted hstatus ?_) ?_ ?_
        · exact fun _ => ⟨catalog, hcatalog, .inl ⟨spec, hspec, by simpa using hconfirm, rfl⟩⟩
        · rintro k' doc' ⟨⟩ ⟨hsame, hgoes⟩
          exact ensures_pure ⟨hsame, hgoes rfl⟩
        · rintro k' doc' e ⟨hsame, -⟩
          exact ⟨hsame, trivial⟩

/-- A turn that goes on has a step of the budget left, and takes one. -/
theorem ensures_turn {catalog : Catalog} (hcatalog : k.catalog = some catalog)
    (hstatus : doc.status = .running) (llm : Llm) (llm_catalog : Catalog) :
    Ensures (knownProtocol config)
      (fun k' r doc' => Turned k doc k' r doc' ∧ (r = .ok true → doc.budgetSteps < doc.max_steps)) k doc
      (turn llm llm_catalog catalog) := by
  refine ensures_get_bind ?_
  split
  · -- the budget is used up
    refine ensures_modify_bind (ensures_modify_bind
      (Ensures.bind (ensures_persist_ended (by rintro ⟨⟩) (by rintro ⟨⟩)) ?_ ?_))
    · rintro k' doc' ⟨⟩ ⟨hsame, hended⟩
      exact ensures_pure ⟨⟨hsame, hended rfl⟩, by rintro ⟨⟩⟩
    · rintro k' doc' e ⟨hsame, -⟩
      exact ⟨⟨hsame, trivial⟩, by rintro ⟨⟩⟩
  · rename_i hbudget
    have hlt : doc.budgetSteps < doc.max_steps := by omega
    refine Ensures.mono (Q := Turned k doc) ?_ fun k' r doc' h => ⟨h, fun _ => hlt⟩
    refine Ensures.bind (ensures_ask_model llm llm_catalog) ?_ ?_
    · rintro k' doc' outcome ⟨hsame, hasked⟩
      cases outcome with
      | none => exact ensures_pure ⟨hsame, hasked⟩
      | some outcome =>
        have hgoes : doc.Goes 0 doc' := hasked
        refine Ensures.bind (ensures_push_turn "assistant" _) ?_ ?_
        · rintro k'' doc'' ⟨⟩ ⟨rfl, rfl⟩
          have hpushed := hgoes.trans (goes_push_turn doc' "assistant" outcome.content)
          split
          · refine Ensures.bind (ensures_finish_goal _) ?_ ?_
            · rintro k''' doc''' ⟨⟩ ⟨hsame', hended⟩
              exact ensures_pure ⟨hsame.trans hsame', hended rfl⟩
            · rintro k''' doc''' e ⟨hsame', -⟩
              exact ⟨hsame.trans hsame', trivial⟩
          · refine Ensures.mono (ensures_tool_call (hsame.catalog.trans hcatalog) ?_ _ _) ?_
            · exact hpushed.status.trans hstatus
            · exact fun k''' r doc''' h => h.of_goes hsame hpushed
        · rintro k'' doc'' e ⟨rfl, -⟩
          exact ⟨hsame, trivial⟩
    · rintro k' doc' e ⟨hsame, -⟩
      exact ⟨hsame, trivial⟩

/-- The loop comes to an end, since each turn that goes on takes a step of the budget. -/
theorem ensures_loop {catalog : Catalog} (hcatalog : k.catalog = some catalog) (llm : Llm)
    (llm_catalog : Catalog) {fuel : Nat} (hstatus : doc.status = .running)
    (hfuel : doc.max_steps ≤ doc.budgetSteps + fuel) :
    Ensures (knownProtocol config) (fun k' r doc' => k.Same k' ∧
      (r = .ok () → k'.stored = some doc' ∧ doc'.status ≠ .running)) k doc
      (loop llm llm_catalog catalog (fuel + 1)) := by
  induction fuel generalizing k doc with
  | zero =>
    refine Ensures.bind (ensures_turn hcatalog hstatus llm llm_catalog) ?_ ?_
    · rintro k' doc' goes_on ⟨⟨hsame, hturned⟩, hbudget⟩
      cases goes_on with
      | false => exact ensures_pure ⟨hsame, fun _ => hturned⟩
      | true =>
        have hlt := hbudget rfl
        omega
    · rintro k' doc' e ⟨⟨hsame, -⟩, -⟩
      exact ⟨hsame, by rintro ⟨⟩⟩
  | succ fuel ih =>
    refine Ensures.bind (ensures_turn hcatalog hstatus llm llm_catalog) ?_ ?_
    · rintro k' doc' goes_on ⟨⟨hsame, hturned⟩, hbudget⟩
      cases goes_on with
      | false => exact ensures_pure ⟨hsame, fun _ => hturned⟩
      | true =>
        have hgoes : doc.Goes 1 doc' := hturned
        have hmax := hgoes.max_steps
        have hspent := hgoes.budget
        refine (ih (hsame.catalog.trans hcatalog) (hgoes.status.trans hstatus) ?_).mono ?_
        · omega
        · exact fun k'' r doc'' h => ⟨hsame.trans h.1, h.2⟩
    · rintro k' doc' e ⟨⟨hsame, -⟩, -⟩
      exact ⟨hsame, by rintro ⟨⟩⟩

theorem ensures_run_loop {catalog : Catalog} (hcatalog : k.catalog = some catalog) (llm : Llm)
    (llm_catalog : Catalog) (hstatus : doc.status = .running) :
    Ensures (knownProtocol config) (fun k' r doc' => k.Same k' ∧
      (r = .ok () → k'.stored = some doc' ∧ doc'.status ≠ .running)) k doc
      (run_loop llm llm_catalog catalog) :=
  ensures_get_bind (ensures_loop hcatalog llm llm_catalog hstatus (Nat.le_add_left _ _))

/-- The goal is opened as a running one. -/
theorem ensures_open_goal (llm : Llm) (llm_catalog dispatch_catalog : Catalog)
    (history : List (String × String)) :
    Ensures (knownProtocol config) (fun k' r doc' => k.Same k' ∧ (r = .ok () → doc'.status = .running)) k
      doc (open_goal llm config llm_catalog dispatch_catalog history) := by
  have hpersist : ∀ {k₁ : Known} {doc₁ : GoalDoc}, k₁ = k → doc₁.status = .running →
      Ensures (knownProtocol config) (fun k' r doc' => k.Same k' ∧ (r = .ok () → doc'.status = .running))
        k₁ doc₁ persist := by
    rintro k₁ doc₁ rfl hstatus
    refine (ensures_persist_running hstatus).mono ?_
    rintro k' r doc' ⟨hsame, hgoes, -⟩
    exact ⟨hsame, fun _ => hgoes.status.trans hstatus⟩
  refine ensures_modify_bind (ensures_get_bind ?_)
  dsimp only
  by_cases hmemory : config.memory_enabled = true
  · rw [if_pos hmemory]
    refine ensures_await_bind trivial ?_
    rintro block k₁ rfl
    cases block with
    | none => exact hpersist rfl rfl
    | some block =>
      refine Ensures.bind (ensures_push_turn "user" block) ?_ ?_
      · rintro k' doc' ⟨⟩ ⟨rfl, rfl⟩
        exact hpersist rfl rfl
      · rintro k' doc' e ⟨rfl, -⟩
        exact ⟨.refl _, by rintro ⟨⟩⟩
  · rw [if_neg hmemory]
    exact hpersist rfl rfl

/-- What a run leaves: its document is stored, and runs on only if the confirmed call was refused. -/
def Ran (k k' : Known) (doc' : GoalDoc) : Prop :=
  k.Same k' ∧ k'.stored = some doc' ∧ (doc'.status = .running → k'.Refused)

theorem ensures_approved_resume {catalog : Catalog} (hcatalog : k.catalog = some catalog)
    (happroved : k.approved = some doc) (hstatus : doc.status = .needs_confirmation) :
    Ensures (knownProtocol config) (fun k' r doc' => k.Same k' ∧
      (r = .ok true → doc'.status = .running) ∧ (r = .ok false → Ran k k' doc')) k doc
      (approved_resume catalog) := by
  have hallowed : ∀ timeout_ms retry, k.Allowed config
      (.rpc_call doc.id retry doc.pending_tool doc.pending_params timeout_ms) := by
    intro timeout_ms retry
    exact ⟨catalog, hcatalog, .inr ⟨doc, happroved, rfl, hstatus, rfl, rfl⟩⟩
  refine ensures_get_bind (ensures_modify_bind ?_)
  cases hspec : catalog.get doc.pending_tool with
  | none =>
    refine Ensures.bind (ensures_dispatch_and_observe ?_) ?_ ?_
    · exact hallowed 30000
    · rintro k' doc' ⟨⟩ ⟨rfl, hdoc⟩
      have hgoes := hdoc rfl
      refine Ensures.bind (ensures_persist_running hgoes.status) ?_ ?_
      · rintro k'' doc'' ⟨⟩ ⟨hsame, hgoes', -⟩
        exact ensures_pure ⟨hsame, fun _ => hgoes'.status.trans hgoes.status, by rintro ⟨⟩⟩
      · rintro k'' doc'' e ⟨hsame, -⟩
        exact ⟨hsame, by rintro ⟨⟩, by rintro ⟨⟩⟩
    · rintro k' doc' e ⟨rfl, -⟩
      exact ⟨.refl _, by rintro ⟨⟩, by rintro ⟨⟩⟩
  | some spec =>
    refine ensures_await_bind trivial fun now k₁ hk₁ => ?_
    obtain rfl : k₁ = k := hk₁
    refine ensures_get_bind ?_
    split
    · -- the quota refuses the call, and the goal is left as running
      rename_i e hquota
      have hrefused : k₁.Refused := ⟨catalog, hcatalog, doc, happroved, spec, hspec, now, e, hquota⟩
      refine Ensures.bind (ensures_refuse_call ?_) ?_ ?_
      · rfl
      · rintro k' doc' ⟨⟩ ⟨hsame, hdone⟩
        obtain ⟨hgoes, hstored⟩ := hdone rfl
        exact ensures_pure ⟨hsame, by rintro ⟨⟩, fun _ =>
          ⟨hsame, hstored, fun _ => hsame.refused hrefused⟩⟩
      · rintro k' doc' e ⟨hsame, -⟩
        exact ⟨hsame, by rintro ⟨⟩, by rintro ⟨⟩⟩
    · refine Ensures.bind (ensures_dispatch_counted ?_ ?_) ?_ ?_
      · rfl
      · exact hallowed spec.timeout_ms
      · rintro k' doc' ⟨⟩ ⟨hsame, hgoes⟩
        exact ensures_pure ⟨hsame, fun _ => (hgoes rfl).status, by rintro ⟨⟩⟩
      · rintro k' doc' e ⟨hsame, -⟩
        exact ⟨hsame, by rintro ⟨⟩, by rintro ⟨⟩⟩

/-- What an entry needs: the run of a confirmed call has read the document that awaits it. -/
def Entry.Ready (k : Known) (doc : GoalDoc) : Entry → Prop
  | .Fresh _ => True
  | .ApprovedResume => k.approved = some doc ∧ doc.status = .needs_confirmation

theorem ensures_run {catalog : Catalog} (hcatalog : k.catalog = some catalog) (llm : Llm) {entry : Entry}
    (hentry : entry.Ready k doc) :
    Ensures (knownProtocol config) (fun k' r doc' => r = .ok () → Ran k k' doc') k doc
      (run llm config catalog entry) := by
  have hloop : ∀ {k₁ : Known} {doc₁ : GoalDoc} (c : Catalog), k.Same k₁ → doc₁.status = .running →
      Ensures (knownProtocol config) (fun k' r doc' => r = .ok () → Ran k k' doc') k₁ doc₁
        (run_loop llm c catalog) := by
    intro k₁ doc₁ c hsame hstatus
    refine (ensures_run_loop (hsame.catalog.trans hcatalog) llm c hstatus).mono ?_
    rintro k' r doc' ⟨hsame', hended⟩ hr
    exact ⟨hsame.trans hsame', (hended hr).1, fun h => absurd h (hended hr).2⟩
  cases entry with
  | Fresh history =>
    refine ensures_modify_bind (ensures_get_bind (Ensures.bind
      (ensures_effective_catalog (undisturbed_known config) id llm _ _) ?_ ?_))
    · rintro k' doc' c ⟨rfl, rfl, -⟩
      refine Ensures.bind (ensures_open_goal llm c catalog history) ?_ ?_
      · rintro k'' doc'' ⟨⟩ ⟨hsame, hstatus⟩
        exact hloop c hsame (hstatus rfl)
      · exact fun k'' doc'' e _ h => by cases h
    · exact fun k' doc' e _ h => by cases h
  | ApprovedResume =>
    refine ensures_get_bind
      (Ensures.bind (ensures_effective_catalog (undisturbed_known config) id llm _ _) ?_ ?_)
    · rintro k' doc' c ⟨rfl, rfl, -⟩
      refine Ensures.bind (ensures_approved_resume hcatalog hentry.1 hentry.2) ?_ ?_
      · rintro k'' doc'' goes_on ⟨hsame, hon, hoff⟩
        cases goes_on with
        | false => exact ensures_pure fun _ => hoff rfl
        | true => exact hloop c hsame (hon rfl)
      · exact fun k'' doc'' e _ h => by cases h
    · exact fun k' doc' e _ h => by cases h

/-! ## Tasks -/

/-- A goal that is answered is stored. -/
def Answered (k : Known) (r : Except String GoalDoc) : Prop :=
  ∀ doc, r = .ok doc → k.stored = some doc ∧ (doc.status = .running → k.Refused)

/-- A failed run is recorded as one. -/
theorem obeys_run_and_record {catalog : Catalog} (hcatalog : k.catalog = some catalog) (llm : Llm)
    {entry : Entry} (hentry : entry.Ready k doc) :
    Obeys (knownProtocol config) Answered k (run_and_record llm config catalog entry doc) := by
  refine Obeys.bind (ensures_run hcatalog llm hentry) ?_
  rintro k' ⟨r, doc'⟩ hran
  cases r with
  | ok u =>
    rintro doc'' hdoc
    obtain rfl := Except.ok.inj hdoc
    exact (hran rfl).2
  | error e =>
    refine ⟨trivial, ?_⟩
    rintro now k₁ rfl
    refine ⟨by rintro ⟨⟩, ?_⟩
    rintro r k₂ - doc ⟨⟩

theorem obeys_start_goal (llm : Llm) (config : Config) (params : StartParams) :
    Obeys (knownProtocol config) Answered .start (start_goal llm config params) := by
  refine ⟨trivial, ?_⟩
  rintro catalog k₁ rfl
  cases catalog with
  | error e => rintro doc ⟨⟩
  | ok catalog =>
    refine ⟨trivial, ?_⟩
    rintro id k₂ rfl
    cases id with
    | error e => rintro doc ⟨⟩
    | ok id =>
      refine ⟨trivial, ?_⟩
      rintro now k₃ rfl
      refine ⟨trivial, ?_⟩
      rintro history k₄ rfl
      show Obeys _ _ _ (run_and_record llm config catalog (.Fresh history)
        (params.document config (toString id) now) >>= _)
      refine Obeys.bind (obeys_run_and_record rfl llm ?_) ?_
      · exact trivial
      · rintro k₅ r hanswered
        cases r with
        | error e => rintro doc ⟨⟩
        | ok doc =>
          refine Obeys.bind (obeys_prune (undisturbed_known config) _) ?_
          rintro k₆ - rfl
          exact hanswered

theorem obeys_resume_goal (llm : Llm) (config : Config) (id : String) (approve : Bool) :
    Obeys (knownProtocol config) Answered .start (resume_goal llm config id approve) := by
  refine ⟨trivial, ?_⟩
  rintro r k₁ rfl
  rcases r with e | _ | doc
  · rintro doc ⟨⟩
  · rintro doc ⟨⟩
  · show Obeys _ _ _ (if doc.status ≠ .needs_confirmation then _ else _)
    by_cases hstatus : doc.status = .needs_confirmation
    · rw [if_neg (not_not_intro hstatus)]
      cases approve with
      | true =>
        refine ⟨trivial, ?_⟩
        rintro catalog k₂ rfl
        cases catalog with
        | error e => rintro doc ⟨⟩
        | ok catalog => exact obeys_run_and_record rfl llm ⟨rfl, hstatus⟩
      | false =>
        refine ⟨trivial, ?_⟩
        rintro now k₂ rfl
        refine ⟨by rintro ⟨⟩, ?_⟩
        rintro r k₃ rfl
        cases r with
        | error e => rintro doc ⟨⟩
        | ok u =>
          rintro doc' hdoc
          obtain rfl := Except.ok.inj hdoc
          exact ⟨rfl, by rintro ⟨⟩⟩
    · rw [if_pos hstatus]
      rintro doc' ⟨⟩

theorem obeys_goal_delete (id : String) :
    Obeys (knownProtocol config) (fun _ _ => True) k (Agent.goal_delete id) := by
  refine ⟨trivial, ?_⟩
  rintro r k₁ rfl
  rcases r with e | _ | doc
  · exact trivial
  · exact trivial
  · refine ⟨trivial, ?_⟩
    rintro deleted k₂ rfl
    cases deleted with
    | error e => exact trivial
    | ok deleted => exact trivial

theorem obeys_task (llm : Llm) (config : Config) (spawn : Spawn) :
    Obeys (knownProtocol config) (fun _ _ => True) .start (spawn.task llm config) := by
  have hreply : ∀ (k : Known) (r : Except String GoalDoc), Answered k r →
      Obeys (knownProtocol config) (fun _ _ => True) k (Agent.await (.reply (r.map .goal)) : Act Unit) := by
    intro k r hr
    refine ⟨?_, fun _ _ _ => trivial⟩
    cases r with
    | error e => exact trivial
    | ok doc => exact hr doc rfl
  cases spawn with
  | goal_start params => exact Obeys.bind (obeys_start_goal llm config params) hreply
  | goal_resume id approve => exact Obeys.bind (obeys_resume_goal llm config id approve) hreply
  | goal_delete id =>
    refine Obeys.bind (obeys_goal_delete id) ?_
    rintro k r -
    refine ⟨?_, fun _ _ _ => trivial⟩
    cases r with
    | error e => exact trivial
    | ok deleted => exact trivial

/-! ## Runs -/

variable {spawn : Nat → Spawn} {trace : List TaskLabel} {p : Tasks}

/-- What a task knows in a run. -/
def knows (i : Nat) (trace : List TaskLabel) : Known := told Known.learn .start i trace

/-- An engine whose catalog has the pending call confirmed has written the document. -/
def Halted (trace : List TaskLabel) (doc : GoalDoc) : Prop :=
  ∃ later earlier i r, trace = later ++ .act i (.db_set .engine doc) r :: earlier ∧
    ∃ catalog ∈ (knows i earlier).catalog, catalog.Guards doc.pending_tool

/-- The task has read the document to have its pending call approved, after the goal has halted with it. -/
def Approved (trace : List TaskLabel) (i : Nat) (doc : GoalDoc) : Prop :=
  ∃ later earlier, trace = later ++ .act i (.db_get (.resume_goal true) doc.id) (.ok (some doc)) :: earlier ∧
    Halted earlier doc

theorem Halted.cons (l : TaskLabel) (h : Halted trace doc) : Halted (l :: trace) doc := by
  obtain ⟨later, earlier, i, r, rfl, hcatalog⟩ := h
  exact ⟨l :: later, earlier, i, r, rfl, hcatalog⟩

theorem Approved.cons (l : TaskLabel) {i : Nat} (h : Approved trace i doc) : Approved (l :: trace) i doc := by
  obtain ⟨later, earlier, rfl, hhalted⟩ := h
  exact ⟨l :: later, earlier, rfl, hhalted⟩

theorem obeys_knows (hrun : Run TaskStep (Tasks.start llm config spawn .empty) trace p) :
    (∀ i, Obeys (knownProtocol config) (fun _ _ => True) (knows i trace) (p.tasks i)) ∧
      ∀ later earlier i e r, trace = later ++ .act i e r :: earlier → (knows i earlier).Allowed config e := by
  have hstart : ∀ i, Obeys (knownProtocol config) (fun _ _ => True) Known.start
      ((Tasks.start llm config spawn .empty).tasks i) := fun i => obeys_task llm config (spawn i)
  exact obeys_told hstart hrun

theorem knows_act (i j : Nat) (e : Eff) (r : e.Answer) :
    knows i (.act j e r :: trace) = if j = i then (knows i trace).learn e r else knows i trace := rfl

/-- The stored goals that halt have halted, and so have those whose pending calls were approved. -/
structure RunInv (trace : List TaskLabel) (w : World) : Prop where
  stored : ∀ (id : String) (doc : GoalDoc), w.docs[id]? = some doc → doc.status = .needs_confirmation →
    Halted trace doc
  approved : ∀ i, ∀ doc ∈ (knows i trace).approved, doc.status = .needs_confirmation → Approved trace i doc

theorem docs_of_serve {w w' : World} {o : Outside} {e : Eff} {r : e.Answer} {id : String}
    (hserve : w.serve o e = some (r, w')) (hdoc : w'.docs[id]? = some doc) :
    w.docs[id]? = some doc ∨ ∃ writer, e = .db_set writer doc := by
  cases e with
  | db_set writer doc' =>
    obtain ⟨rfl, rfl⟩ := Prod.mk.inj (Option.some.inj hserve)
    rw [Fate.write_eq] at hdoc
    split_ifs at hdoc
    · rw [World.getElem?_put] at hdoc
      split_ifs at hdoc
      · obtain rfl := Option.some.inj hdoc
        exact .inr ⟨writer, rfl⟩
      · exact .inl hdoc
    · exact .inl hdoc
  | db_delete id' =>
    obtain ⟨rfl, rfl⟩ := Prod.mk.inj (Option.some.inj hserve)
    rw [Fate.write_eq] at hdoc
    split_ifs at hdoc
    · rw [World.getElem?_delete] at hdoc
      split_ifs at hdoc
      exact .inl hdoc
    · exact .inl hdoc
  | db_incr =>
    obtain ⟨rfl, rfl⟩ := Prod.mk.inj (Option.some.inj hserve)
    rw [Fate.write_eq] at hdoc
    split_ifs at hdoc <;> exact .inl hdoc
  | panic | hang => cases hserve
  | _ =>
    obtain ⟨rfl, rfl⟩ := Prod.mk.inj (Option.some.inj hserve)
    exact .inl hdoc

theorem learn_approved (k : Known) (e : Eff) (r : e.Answer) :
    (k.learn e r).approved = k.approved ∨ ∃ id doc, (⟨e, r⟩ : (e : Eff) × e.Answer) =
      ⟨.db_get (.resume_goal true) id, .ok (some doc)⟩ ∧ (k.learn e r).approved = some doc := by
  unfold Known.learn
  split
  · exact .inl rfl
  · exact .inr ⟨_, _, rfl, rfl⟩
  · exact .inl rfl
  · exact .inl rfl
  · exact .inl rfl

theorem RunInv.act {w w' : World} {i : Nat} {e : Eff} {r : e.Answer} (h : RunInv trace w)
    (hallowed : (knows i trace).Allowed config e) (hw : Handle i w e r w') :
    RunInv (.act i e r :: trace) w' := by
  obtain ⟨o, hserve⟩ := hw
  constructor
  · intro id doc hdoc hstatus
    rcases docs_of_serve hserve hdoc with hdoc | ⟨writer, rfl⟩
    · exact (h.stored id doc hdoc hstatus).cons _
    · obtain ⟨rfl, hcatalog⟩ := hallowed hstatus
      exact ⟨[], trace, i, r, rfl, hcatalog⟩
  · intro j doc hdoc hstatus
    rw [knows_act] at hdoc
    split_ifs at hdoc with hij
    · subst hij
      rcases learn_approved (knows i trace) e r with hsame | ⟨id, doc', heq, happroved⟩
      · rw [hsame] at hdoc
        exact (h.approved i doc hdoc hstatus).cons _
      · rw [happroved] at hdoc
        obtain rfl := Option.some.inj hdoc
        cases heq
        obtain ⟨hanswer, rfl⟩ := Prod.mk.inj (Option.some.inj hserve)
        obtain ⟨-, hstored⟩ := Fate.answer_eq_ok_iff.mp hanswer
        obtain rfl := w.keyed id doc' hstored
        exact ⟨[], trace, rfl, h.stored _ doc' hstored hstatus⟩
    · exact (h.approved j doc hdoc hstatus).cons _

theorem runInv_of_run (hrun : Run TaskStep (Tasks.start llm config spawn .empty) trace p) :
    RunInv trace p.world := by
  induction hrun with
  | start => exact ⟨fun id doc h => by simp [Tasks.start, World.empty] at h, fun i doc h => by cases h⟩
  | @step trace p l p' hrun hstep ih =>
    cases hstep with
    | @act i e k r w htask hw =>
      have hobeys := (obeys_knows hrun).1 i
      rw [htask] at hobeys
      exact ih.act hobeys.1 hw
    | env hw =>
      obtain rfl := hw
      refine ⟨fun id doc hdoc hstatus => (ih.stored id doc hdoc hstatus).cons _, fun i doc hdoc hstatus => ?_⟩
      exact (ih.approved i doc hdoc hstatus).cons _

/-- Each request for a tool is sent by a task whose catalog has the tool without a confirmation, or it is the
    call with which the goal has halted and that the task was approved. -/
theorem calls_are_authorised (hrun : Run TaskStep (Tasks.start llm config spawn .empty) trace p)
    {later earlier : List TaskLabel} {i timeout_ms : Nat} {goal_id name : String} {retry : Bool} {params : Json}
    {r : Except String Json}
    (htrace : trace = later ++ .act i (.rpc_call goal_id retry name params timeout_ms) r :: earlier) :
    ∃ catalog ∈ (knows i earlier).catalog, catalog.Frees name timeout_ms ∨
      ∃ doc ∈ (knows i earlier).approved, doc.id = goal_id ∧ doc.Awaits name params ∧ Approved earlier i doc := by
  obtain ⟨catalog, hcatalog, hcall⟩ := (obeys_knows hrun).2 later earlier i
    (.rpc_call goal_id retry name params timeout_ms) r htrace
  refine ⟨catalog, hcatalog, ?_⟩
  rcases hcall with hfrees | ⟨doc, happroved, hid, hawaits⟩
  · exact .inl hfrees
  · have hbefore : ∃ p', Run TaskStep (Tasks.start llm config spawn .empty) earlier p' := by
      rw [htrace, List.append_cons] at hrun
      exact hrun.earlier
    obtain ⟨p', hrun'⟩ := hbefore
    exact .inr ⟨doc, happroved, hid, hawaits, (runInv_of_run hrun').approved i doc happroved hawaits.status⟩

theorem serve_eq_none {w : World} {o : Outside} {e : Eff} (h : w.serve o e = none) :
    e = .panic ∨ e = .hang := by
  cases e with
  | panic => exact .inl rfl
  | hang => exact .inr rfl
  | _ => cases h

/-- The tasks move as they are told. -/
def answerTask (p : Tasks) : TaskRequest → Option (TaskLabel × Tasks)
  | .act i o =>
    match p.tasks i with
    | .done _ => none
    | .call e k =>
      (p.world.serve o e).map fun (r, world) =>
        (.act i e r, { tasks := Function.update p.tasks i (k r), world })
  | .turn clock fate => some (.env (clock, fate), { p with world := p.world.turn clock fate })

theorem taskStep_answerTask {p' : Tasks} {a : TaskRequest} {l : TaskLabel}
    (h : answerTask p a = some (l, p')) : TaskStep p l p' := by
  unfold answerTask at h
  split at h
  · rename_i i o
    split at h
    · cases h
    · rename_i e k htask
      obtain ⟨⟨r, world⟩, hserve, heq⟩ := Option.map_eq_some_iff.mp h
      obtain ⟨rfl, rfl⟩ := Prod.mk.inj heq
      exact .act htask ⟨o, hserve⟩
  · rename_i clock fate
    obtain ⟨rfl, rfl⟩ := Prod.mk.inj (Option.some.inj h)
    exact .env rfl

/-- A model that only ever asks for one tool. -/
def insistent : Llm where
  opening_messages_with_full _ _ _ _ _ := []
  filtered_catalog catalog _ _ := catalog
  want_native_tools _ _ := false
  catalog_tools_param _ := []
  degraded_tool_catalog_block _ := ""
  outcome_to_reply _ := .ToolCall "remove" .null

def plain : Config where
  embedding_filter := false
  memory_enabled := false
  default_max_steps := 6
  retention_limit := none

/-- A catalog that has the tool confirmed, and a model and a tool that answer. -/
def guarded : Outside where
  catalog := .ok {
    tools := [{
      name := "remove", description := "", parameters := .null, requires_confirmation := true
      timeout_ms := 1000, cooldown_ms := 0, max_per_goal := 0 }]
    allowed_actions := [] }
  history := []
  hits := none
  recalled := none
  chat := .ok { content := "", tool_calls := [] }
  tool := .ok .null

/-- A goal is started, and then its confirmation is approved. -/
def startThenApprove : Nat → Spawn
  | 0 => .goal_start { goal := "tidy up", context := "", max_steps := 0 }
  | _ => .goal_resume "1" true

/-- The goal halts and is answered, and then the confirmed call is sent. -/
def confirmedCall : Option (List TaskLabel × Tasks) :=
  runOf answerTask (.start insistent plain startThenApprove .empty)
    (List.replicate 10 (.act 0 guarded) ++ List.replicate 5 (.act 1 guarded))

theorem run_confirmedCall {r : List TaskLabel × Tasks} (h : confirmedCall = some r) :
    Run TaskStep (.start insistent plain startThenApprove .empty) r.1 r.2 :=
  run_runOf (fun _ _ _ _ h => taskStep_answerTask h) h

/-- The request for the tool is the last thing that has happened. -/
def EndsInCall : List TaskLabel → Bool
  | .act 1 (.rpc_call "1" false "remove" .null 1000) _ :: _ => true
  | _ => false

theorem of_endsInCall (h : EndsInCall trace = true) :
    ∃ r earlier, trace = .act 1 (.rpc_call "1" false "remove" .null 1000) r :: earlier := by
  unfold EndsInCall at h
  split at h
  · exact ⟨_, _, rfl⟩
  · cases h

theorem calls_are_authorised_sample : ∃ trace p earlier r,
    Run TaskStep (.start insistent plain startThenApprove .empty) trace p ∧
    trace = [] ++ .act 1 (.rpc_call "1" false "remove" .null 1000) r :: earlier ∧
    ∃ catalog ∈ (knows 1 earlier).catalog, catalog.Frees "remove" 1000 ∨
      ∃ doc ∈ (knows 1 earlier).approved, doc.id = "1" ∧ doc.Awaits "remove" .null ∧ Approved earlier 1 doc := by
  have hsome : (confirmedCall.any fun r => EndsInCall r.1) = true := by
    decide
  obtain ⟨⟨trace, p⟩, hr, hends⟩ := (Option.any_eq_true _ _).mp hsome
  obtain ⟨r, earlier, rfl⟩ := of_endsInCall hends
  have hrun : Run TaskStep (.start insistent plain startThenApprove .empty) _ p := run_confirmedCall hr
  exact ⟨_, p, earlier, r, hrun, rfl, calls_are_authorised hrun (List.nil_append _).symm⟩

/-- The first task is answered with the goal that awaits the confirmation. -/
def answersHalted : TaskLabel → Bool
  | .act 0 (.reply (.ok (.goal doc))) _ => doc.status = .needs_confirmation
  | _ => false

end Agent
