import Mathlib.Data.List.Induction
import Mathlib.Data.List.Infix
import VynkorPlugins.Hotkey.Portal

/-!
# A failed change changes nothing

The bindings that are listed and the shortcuts that fire, over any requests and any answers of the portal.
-/

namespace Hotkey

/-! ## What should hold -/

/-- The bindings that a request makes of others. -/
def HotkeyRequest.updated (store : BindingStore) : HotkeyRequest → BindingStore
  | .bind id trigger description => store.set { id, trigger, description }
  | .unbind id => (store.remove id).1
  | .list => store

/-- The request is one for which the portal is asked. -/
def HotkeyRequest.Rebinds (store : BindingStore) : HotkeyRequest → Prop
  | .bind .. => True
  | .unbind id => (store.remove id).2 = true
  | .list => False

/-- No answer came in time, to the plugin or to the worker. -/
def Answers.TimedOut (a : Answers) : Prop :=
  a.late = true ∨ a.create = .error RESPONSE_TIMED_OUT ∨ ∃ bound, a.reply = .lost RESPONSE_TIMED_OUT bound

/-- The plugin, the bindings after the last request that was answered Ok, and whether the last rebind timed
    out. -/
structure Watched where
  state : State
  confirmed : BindingStore
  timedOut : Prop

open Classical in
/-- One more request. -/
noncomputable def Watched.take (w : Watched) (e : Exchange) : Watched where
  state := (w.state.handle_action e).2
  confirmed :=
    match e.request, (w.state.handle_action e).1 with
    | .ok request, .ok _ => request.updated w.confirmed
    | _, _ => w.confirmed
  timedOut :=
    match e.request with
    | .ok request => if request.Rebinds w.state.store then e.answers.TimedOut else w.timedOut
    | .error _ => w.timedOut

noncomputable def Watched.run (w : Watched) (exchanges : List Exchange) : Watched := exchanges.foldl Watched.take w

/-- The listed bindings are the confirmed ones, and unless the last rebind timed out the shortcuts of the
    portal are theirs. -/
structure Watched.Agrees (w : Watched) : Prop where
  listed : w.state.store = w.confirmed
  active : ¬ w.timedOut → ∀ session, w.state.portal = some session → session.getD [] = triggersOf w.confirmed

/-! ## Careful runs -/

/-- The portal binds all shortcuts in time. -/
structure Answers.Succeeds (a : Answers) (triggers : Triggers) : Prop where
  intime : a.late = false
  create : a.create = .ok ()
  reply : triggers = [] ∨ ∃ shortcuts, a.reply = .response 0 shortcuts ∧ ∀ t ∈ triggers, t.1 ∈ shortcuts

/-- The portal has all shortcuts bound, whatever it answers. -/
def Answers.Binds (a : Answers) (triggers : Triggers) : Prop :=
  a.create = .ok () ∧ (triggers = [] ∨ ∃ e bound, a.reply = .lost e bound ∧ ∀ t ∈ triggers, t.1 ∈ bound)

/-- Each rebind succeeds, or it is one that changes no binding and times out or binds them all. -/
def Careful (s : State) (e : Exchange) : Prop :=
  ∀ request, e.request = .ok request → request.Rebinds s.store → s.portal ≠ none →
    e.answers.Succeeds (triggersOf (request.updated s.store)) ∨
      request.updated s.store = s.store ∧ (e.answers.TimedOut ∨ e.answers.Binds (triggersOf s.store))

variable {w : Watched} {s : State} {e : Exchange} {a : Answers} {triggers : Triggers} {request : HotkeyRequest}

theorem filter_bound {shortcuts : List String} (h : ∀ t ∈ triggers, t.1 ∈ shortcuts) :
    triggers.filter (fun t => t.1 ∈ shortcuts) = triggers :=
  List.filter_eq_self.mpr fun t ht => decide_eq_true (h t ht)

theorem apply_of_succeeds (h : a.Succeeds triggers) : apply_bindings triggers a = (.ok (), some triggers) := by
  unfold apply_bindings
  rw [h.create]
  dsimp only
  split_ifs with hnil
  · rw [hnil]
  · obtain ⟨shortcuts, hreply, hall⟩ := h.reply.resolve_left hnil
    have hfind : triggers.find? (fun t => t.1 ∉ shortcuts) = none := by
      rw [List.find?_eq_none]
      intro t ht
      simpa using hall t ht
    simp only [hreply, bind_shortcuts, filter_bound hall, hfind]
    rfl

theorem apply_of_binds (h : a.Binds triggers) : (apply_bindings triggers a).2.getD [] = triggers := by
  unfold apply_bindings
  rw [h.1]
  dsimp only
  split_ifs with hnil
  · rw [hnil]
    rfl
  · obtain ⟨e, bound, hreply, hall⟩ := h.2.resolve_left hnil
    rw [hreply]
    exact filter_bound hall

/-! ## One request -/

theorem remove_none {store : BindingStore} {id : String} (h : (store.remove id).2 ≠ true) :
    (store.remove id).1 = store := by
  have hlen : (store.remove id).1.length = store.length := by
    simpa only [BindingStore.remove, ne_eq, decide_eq_true_eq, not_not] using h
  have hsub : (store.remove id).1.Sublist store := List.filter_sublist
  exact hsub.eq_of_length hlen

/-- The state whose store is updated, before the portal is asked. -/
def State.update (s : State) (request : HotkeyRequest) : State where
  store := request.updated s.store
  portal := s.portal

theorem dispatch_rebinds (h : request.Rebinds s.store) :
    ∃ answer, s.dispatch a request =
      (((s.update request).rebind_portal a).1.map fun _ => answer, ((s.update request).rebind_portal a).2) := by
  cases request with
  | bind id trigger description => exact ⟨.bound id trigger, rfl⟩
  | unbind id =>
    refine ⟨.unbound true id, ?_⟩
    have hremoved : (s.store.remove id).2 = true := h
    simp only [State.dispatch, hremoved, if_true]
    rfl
  | list => exact h.elim

theorem dispatch_stays (h : ¬ request.Rebinds s.store) :
    request.updated s.store = s.store ∧ ∃ answer, s.dispatch a request = (.ok answer, s) := by
  cases request with
  | bind id trigger description => exact (h trivial).elim
  | unbind id =>
    have hremoved : ¬ (s.store.remove id).2 = true := h
    have hstore := remove_none hremoved
    refine ⟨hstore, .unbound false id, ?_⟩
    simp only [State.dispatch, if_neg hremoved, hstore]
  | list => exact ⟨rfl, _, rfl⟩

theorem rebind_store (s : State) (a : Answers) : (s.rebind_portal a).2.store = s.store := by
  unfold State.rebind_portal
  split <;> rfl

theorem rebind_manual (h : s.portal = none) : s.rebind_portal a = (.ok (), s) := by
  unfold State.rebind_portal
  rw [h]

theorem rebind_asked {session : Option Triggers} (h : s.portal = some session) :
    s.rebind_portal a =
      (if a.late then .error "timed out waiting for the portal rebind" else (apply_bindings (triggersOf s.store) a).1,
        { s with portal := some (apply_bindings (triggersOf s.store) a).2 }) := by
  unfold State.rebind_portal
  rw [h]

theorem take_error {err : String} (hrequest : e.request = .error err) : w.take e = w := by
  have hhandle : w.state.handle_action e = (.error err, w.state) := by
    simp only [State.handle_action, hrequest]
  simp only [Watched.take, hrequest, hhandle]

theorem take_stays (hagrees : w.state.store = w.confirmed) (hrequest : e.request = .ok request)
    (hstays : ¬ request.Rebinds w.state.store) : w.take e = w := by
  obtain ⟨hupdated, answer, hdispatch⟩ := dispatch_stays (a := e.answers) hstays
  have hhandle : w.state.handle_action e = (.ok answer, w.state) := by
    simp only [State.handle_action, hrequest, hdispatch]
  rw [hagrees] at hupdated
  simp only [Watched.take, hrequest, hhandle, if_neg hstays, hupdated]

theorem take_rebinds (hrequest : e.request = .ok request) (hrebinds : request.Rebinds w.state.store) :
    (w.take e).state = ((w.state.update request).rebind_portal e.answers).2 ∧
      (w.take e).confirmed =
        (match ((w.state.update request).rebind_portal e.answers).1 with
        | .ok _ => request.updated w.confirmed
        | .error _ => w.confirmed) ∧
      ((w.take e).timedOut ↔ e.answers.TimedOut) := by
  obtain ⟨answer, hdispatch⟩ := dispatch_rebinds (a := e.answers) hrebinds
  have hhandle : w.state.handle_action e =
      (((w.state.update request).rebind_portal e.answers).1.map fun _ => answer,
        ((w.state.update request).rebind_portal e.answers).2) := by
    simp only [State.handle_action, hrequest, hdispatch]
  refine ⟨?_, ?_, ?_⟩
  · show (w.state.handle_action e).2 = _
    rw [hhandle]
  · simp only [Watched.take, hrequest, hhandle]
    cases ((w.state.update request).rebind_portal e.answers).1 <;> rfl
  · simp only [Watched.take, hrequest, if_pos hrebinds]

/-! ## Careful runs keep store and portal together -/

theorem agrees_manual (hagrees : w.Agrees) (hrequest : e.request = .ok request)
    (hrebinds : request.Rebinds w.state.store) (hportal : w.state.portal = none) : (w.take e).Agrees := by
  obtain ⟨hstate, hconfirmed, -⟩ := take_rebinds hrequest hrebinds
  have hmanual : (w.state.update request).rebind_portal e.answers = (.ok (), w.state.update request) :=
    rebind_manual hportal
  rw [hmanual] at hstate hconfirmed
  constructor
  · rw [hstate, hconfirmed, ← hagrees.listed]
    rfl
  · intro _ session hsession
    rw [hstate] at hsession
    have hnone : w.state.portal = some session := hsession
    rw [hportal] at hnone
    cases hnone

/-- The portal has bound all shortcuts of the new store, and says so. -/
theorem agrees_succeeds (hagrees : w.Agrees) (hrequest : e.request = .ok request)
    (hrebinds : request.Rebinds w.state.store) {session : Option Triggers} (hportal : w.state.portal = some session)
    (hsucceeds : e.answers.Succeeds (triggersOf (request.updated w.state.store))) : (w.take e).Agrees := by
  obtain ⟨hstate, hconfirmed, -⟩ := take_rebinds hrequest hrebinds
  have happly : apply_bindings (triggersOf (w.state.update request).store) e.answers =
      (.ok (), some (triggersOf (request.updated w.state.store))) := apply_of_succeeds hsucceeds
  have hasked := rebind_asked (a := e.answers) (s := w.state.update request) hportal
  rw [happly, hsucceeds.intime] at hasked
  rw [hasked] at hstate hconfirmed
  have hconfirmed : (w.take e).confirmed = request.updated w.confirmed := hconfirmed
  constructor
  · rw [hstate, hconfirmed, ← hagrees.listed]
    rfl
  · intro _ session' hsession
    rw [hstate] at hsession
    have heq : some (triggersOf (request.updated w.state.store)) = session' := Option.some.inj hsession
    rw [← heq, hconfirmed, hagrees.listed]
    rfl

/-- The request changes no binding, and the portal times out or has bound all shortcuts. -/
theorem agrees_unchanged (hagrees : w.Agrees) (hrequest : e.request = .ok request)
    (hrebinds : request.Rebinds w.state.store) {session : Option Triggers} (hportal : w.state.portal = some session)
    (hsame : request.updated w.state.store = w.state.store)
    (hanswers : e.answers.TimedOut ∨ e.answers.Binds (triggersOf w.state.store)) : (w.take e).Agrees := by
  obtain ⟨hstate, hconfirmed, htimed⟩ := take_rebinds hrequest hrebinds
  have hsame' : request.updated w.confirmed = w.confirmed := by
    rw [← hagrees.listed]
    exact hsame
  have hconfirmed : (w.take e).confirmed = w.confirmed := by
    rw [hconfirmed]
    split
    · exact hsame'
    · rfl
  constructor
  · rw [hstate, rebind_store, hconfirmed, ← hagrees.listed]
    exact hsame
  · intro hintime session' hsession
    have hbinds := hanswers.resolve_left fun h => hintime (htimed.mpr h)
    rw [hstate, rebind_asked (s := w.state.update request) hportal] at hsession
    have heq : (apply_bindings (triggersOf (w.state.update request).store) e.answers).2 = session' :=
      Option.some.inj hsession
    have hstore : (w.state.update request).store = w.state.store := hsame
    rw [← heq, hstore, apply_of_binds hbinds, hconfirmed, hagrees.listed]

/-- One request of a careful run. -/
theorem agrees_take (hagrees : w.Agrees) (hcareful : Careful w.state e) : (w.take e).Agrees := by
  cases hrequest : e.request with
  | error err =>
    rw [take_error hrequest]
    exact hagrees
  | ok request =>
    by_cases hrebinds : request.Rebinds w.state.store
    · cases hportal : w.state.portal with
      | none => exact agrees_manual hagrees hrequest hrebinds hportal
      | some session =>
        have hasked : w.state.portal ≠ none := by simp [hportal]
        rcases hcareful request hrequest hrebinds hasked with hsucceeds | ⟨hsame, hanswers⟩
        · exact agrees_succeeds hagrees hrequest hrebinds hportal hsucceeds
        · exact agrees_unchanged hagrees hrequest hrebinds hportal hsame hanswers
    · rw [take_stays hagrees.listed hrequest hrebinds]
      exact hagrees

/-- Where each rebind succeeds, or is one that changes no binding and times out or binds them all, the listed
    bindings are always the confirmed ones, and they fire unless the last rebind timed out. -/
theorem run_agrees (w : Watched) (exchanges : List Exchange) (hagrees : w.Agrees)
    (hcareful : ∀ before e later, exchanges = before ++ e :: later → Careful (w.run before).state e) :
    ∀ seen, seen <+: exchanges → (w.run seen).Agrees := by
  intro seen
  induction seen using List.reverseRecOn with
  | nil =>
    intro _
    exact hagrees
  | append_singleton seen e ih =>
    rintro ⟨later, hlater⟩
    have hsplit : exchanges = seen ++ e :: later := by
      rw [← hlater, List.append_assoc]
      rfl
    have hseen : (w.run seen).Agrees := ih ⟨e :: later, hsplit.symm⟩
    have hstep : w.run (seen ++ [e]) = (w.run seen).take e := by
      simp only [Watched.run, List.foldl_append, List.foldl_cons, List.foldl_nil]
    rw [hstep]
    exact agrees_take hseen (hcareful seen e later hsplit)

/-- A new binding `mute`. -/
def muteBinding (answers : Answers) : Exchange where
  action := "hotkey_bind"
  params := .ok (.obj [("id", .str "mute"), ("trigger", .str "ctrl + m")])
  answers := answers

def bindsMute : Answers where
  create := .ok ()
  reply := .response 0 ["mute"]
  late := false

def denies : Answers where
  create := .error "shortcut session was denied by the desktop (response code 1)"
  reply := .failed ""
  late := false

/-- The plugin before its first request. -/
def fresh : Watched where
  state := { store := [], portal := some none }
  confirmed := []
  timedOut := False

theorem fresh_agrees : fresh.Agrees := by
  constructor
  · rfl
  · intro _ session hsession
    rw [← Option.some.inj hsession]
    rfl

theorem mute_request (answers : Answers) :
    (muteBinding answers).request = .ok (.bind "mute" "CTRL+m" "hotkey mute") := by
  rfl

theorem run_agrees_mute : (fresh.run [muteBinding bindsMute]).Agrees := by
  refine run_agrees fresh _ fresh_agrees ?_ _ (List.prefix_refl _)
  intro before e later heq
  obtain ⟨rfl, he⟩ : before = [] ∧ e = muteBinding bindsMute := by
    cases before with
    | nil => simp_all
    | cons x before => simp at heq
  subst he
  intro request hrequest _ _
  rw [mute_request] at hrequest
  cases hrequest
  left
  constructor
  · rfl
  · rfl
  · right
    refine ⟨["mute"], rfl, ?_⟩
    intro t ht
    simp [HotkeyRequest.updated, fresh, Watched.run, triggersOf, BindingStore.set] at ht
    simp [ht]

/-- The portal denies the session, and the binding is listed all the same. -/
theorem not_run_agrees :
    ¬ ∀ (w : Watched) (exchanges : List Exchange), w.Agrees → ∀ seen, seen <+: exchanges → (w.run seen).Agrees := by
  intro h
  have hlisted := (h fresh [muteBinding denies] fresh_agrees _ (List.prefix_refl _)).listed
  obtain ⟨hstate, hconfirmed, -⟩ := take_rebinds (w := fresh) (mute_request denies) trivial
  have hstore : (fresh.take (muteBinding denies)).state.store =
      [{ id := "mute", trigger := "CTRL+m", description := "hotkey mute" }] := by
    rw [hstate]
    rfl
  have hnone : (fresh.take (muteBinding denies)).confirmed = [] := by
    rw [hconfirmed]
    rfl
  have hrun : fresh.run [muteBinding denies] = fresh.take (muteBinding denies) := rfl
  rw [hrun, hstore, hnone] at hlisted
  cases hlisted

end Hotkey
