import VynkorPlugins.Mqtt.Proofs.ActionProofs

/-!
# The session of the plugin's client

As long as the client of the plugin does not connect again, its handle and its task have one loop.
-/

namespace Mqtt

open Async Transition

variable {serde : Serde} {base64 : Base64} {requests : Nat → ActionRequest} {w w' : World}
  {i j : Nat}

/-! ## What an action does -/

/-- What an action has done to the session and not yet to the table of the subscriptions. -/
structure Pending where
  req : ActionRequest
  begun : Bool
  subscribed : Option String
  left : Option String

def Pending.start (req : ActionRequest) : Pending where
  req
  begun := false
  subscribed := none
  left := none

/-- Nothing is left to be done to the table. -/
def Pending.Settled (s : Pending) : Prop :=
  s.begun = true ∧ s.subscribed = none ∧ s.left = none

def Pending.Allowed (serde : Serde) (s : Pending) : Eff → Prop
  | .ready => s.begun = false
  | .connect _ | .clear_client => s.Settled
  | .request (.Subscribe ..) => s.Settled
  | .request (.Unsubscribe topic) => s.Settled ∧ leaves serde s.req = some topic
  | .add_subscription topic _ => s.begun = true ∧ s.subscribed = some topic
  | .remove_subscription _ => s.begun = true
  | .reply _ => s.begun = true ∧ s.left = none
  | _ => s.begun = true

def Pending.Next (s : Pending) : (e : Eff) → e.Answer → Pending → Prop
  | .ready, _, s' => s' = { s with begun := true }
  | .request (.Subscribe topic _), .ok _, s' => s' = { s with subscribed := some topic }
  | .request (.Unsubscribe topic), .ok _, s' => s' = { s with left := some topic }
  | .remove_subscription topic, _, s' =>
    s' = { s with left := if s.left = some topic then none else s.left }
  | .reply _, _, s' => s' = { s with begun := false, subscribed := none }
  | _, _, s' => s' = s

def sessionProtocol (serde : Serde) : Protocol Eff Eff.Answer Pending where
  allowed s := s.Allowed serde
  next s := s.Next

section

variable {s : Pending} {α : Type}

/-- The effects that leave the subscriptions as they are. -/
def Keeping : Eff → Prop
  | .new_v4 | .insert_pending _ | .reply_rx _ => True
  | e => Basic e

theorem obeys_of_keeping {m : Act α} (hm : Asks Keeping m) (hs : s.Settled) :
    Obeys (sessionProtocol serde) (fun s' _ => s' = s) s m := by
  induction hm with
  | done => rfl
  | @call e k he _ ih =>
    cases e with
    | ready => cases he
    | add_subscription topic qos => cases he
    | remove_subscription topic => cases he
    | reply result => cases he
    | connect asked => exact ⟨hs, fun a s' h => h ▸ ih a⟩
    | clear_client => exact ⟨hs, fun a s' h => h ▸ ih a⟩
    | request r =>
      cases r with
      | Subscribe topic qos => cases he
      | Unsubscribe topic => cases he
      | Publish topic qos retain payload => exact ⟨hs.1, fun a s' h => h ▸ ih a⟩
      | Disconnect => exact ⟨hs.1, fun a s' h => h ▸ ih a⟩
    | _ => exact ⟨hs.1, fun a s' h => h ▸ ih a⟩

theorem keeping_of_basic (e : Eff) (h : Basic e) : Keeping e := by
  unfold Keeping
  split
  · trivial
  · trivial
  · trivial
  · exact h

theorem asks_request (request_topic response_topic : String) (payload : ByteArray)
    (timeout_ms : Nat) :
    Asks Keeping (MqttClient.request request_topic response_topic payload timeout_ms) := by
  refine .call trivial fun _ => .call trivial fun a => ?_
  cases a with
  | error e => exact .done
  | ok _ =>
    refine .call trivial fun msg => ?_
    cases msg with
    | none => exact .done
    | some msg => exact .done

theorem asks_handle_device_command (params_json : ByteArray) :
    Asks Keeping (handle_device_command serde params_json) := by
  unfold handle_device_command
  split
  · exact .done
  · refine .call trivial fun msg_id => asks_client trivial ?_ .done
    refine (asks_request _ _ _ _).bind fun res => ?_
    cases res with
    | ok response => exact .call trivial fun _ => .call trivial fun _ => .done
    | error e =>
      cases e with
      | Timeout => exact .call trivial fun _ => .done
      | _ => exact .done

theorem asks_handle_ota_update (params_json : ByteArray) :
    Asks Keeping (handle_ota_update serde params_json) := by
  unfold handle_ota_update
  split
  · exact .done
  · refine .call trivial fun msg_id => asks_client trivial ?_ .done
    refine (asks_request _ _ _ _).bind fun res => ?_
    cases res with
    | ok response => exact .done
    | error e =>
      cases e with
      | Timeout => exact .done
      | _ => exact .done

/-- What an action ends in. -/
def Pending.Over (s : Pending) : Prop := s.begun = true ∧ s.left = none

theorem Pending.Settled.over (h : s.Settled) : s.Over := ⟨h.1, h.2.2⟩

theorem obeys_handle_subscribe (hs : s.Settled) (params_json : ByteArray) :
    Obeys (sessionProtocol serde) (fun s' _ => s'.Over) s (handle_subscribe serde params_json) := by
  unfold handle_subscribe
  split
  · exact hs.over
  refine ⟨hs.1, ?_⟩
  rintro (_ | _) s' rfl
  · exact hs.over
  refine ⟨hs, ?_⟩
  rintro (e | _) s₂ rfl
  · exact hs.over
  · refine ⟨⟨hs.1, rfl⟩, ?_⟩
    rintro _ s₃ rfl
    exact hs.over

theorem obeys_handle_unsubscribe (hs : s.Settled) (haction : s.req.action = "mqtt_unsubscribe") :
    Obeys (sessionProtocol serde) (fun s' _ => s'.Over) s
      (handle_unsubscribe serde s.req.params_json) := by
  unfold handle_unsubscribe
  split
  · exact hs.over
  rename_i topic htopic
  have hleaves : leaves serde s.req = some topic := by
    unfold leaves
    rw [if_pos haction, htopic]
    rfl
  refine ⟨hs.1, ?_⟩
  rintro (_ | _) s' rfl
  · exact hs.over
  refine ⟨⟨hs, hleaves⟩, ?_⟩
  rintro (e | _) s₂ rfl
  · exact hs.over
  · refine ⟨hs.1, ?_⟩
    rintro _ s₃ rfl
    exact ⟨hs.1, if_pos rfl⟩

theorem obeys_keeping {m : Act Handled} (hm : Asks Keeping m) (hs : s.Settled) :
    Obeys (sessionProtocol serde) (fun s' _ => s'.Over) s m :=
  (obeys_of_keeping hm hs).mono fun _ _ h => h ▸ hs.over

theorem session_handle_action (hs : s.Settled) :
    Obeys (sessionProtocol serde) (fun s' _ => s'.Over) s (handle_action serde base64 s.req) := by
  unfold handle_action
  split
  · exact obeys_keeping ((asks_handle_connect _).mono keeping_of_basic) hs
  · exact obeys_keeping (asks_handle_disconnect.mono keeping_of_basic) hs
  · exact obeys_keeping ((asks_handle_publish _).mono keeping_of_basic) hs
  · exact obeys_handle_subscribe hs _
  · rename_i h
    exact obeys_handle_unsubscribe hs h
  · exact obeys_keeping (asks_handle_status.mono keeping_of_basic) hs
  · exact obeys_keeping (asks_handle_device_command _) hs
  · exact obeys_keeping (asks_handle_ota_update _) hs
  · exact hs.over

theorem session_on_message (req : ActionRequest) :
    Obeys (sessionProtocol serde) (fun _ _ => True) (.start req) (on_message serde base64 req) := by
  refine ⟨rfl, ?_⟩
  rintro - s' rfl
  refine (session_handle_action (s := { Pending.start req with begun := true }) ⟨rfl, rfl, rfl⟩).bind ?_
  intro s' res hover
  exact ⟨hover, fun _ _ _ => trivial⟩

end

/-! ## Runs -/

/-- The handle of a client and its task have one loop, which was opened as it was asked for. -/
structure Fed (w : World) (c : MqttClient) : Prop where
  feeds : c.handle = c.eventloop
  alive : (w.loops c.eventloop).alive = true
  options : (w.loops c.eventloop).options = c.asked.asked
  polled : c.connected = true → c.sleeping = false

/-- The actions and the world. -/
structure SessionInv (serde : Serde) (requests : Nat → ActionRequest) (g : Nat → Pending) (w : World) :
    Prop where
  req : ∀ i, (g i).req = requests i
  busy : ∀ i, (g i).begun = true → w.busy = some i
  made : ∀ i topic, (g i).subscribed = some topic → (g i).begun = true
  left : ∀ i topic, (g i).left = some topic →
    (g i).begun = true ∧ leaves serde (requests i) = some topic
  client : ∀ n, w.client = some n → n < w.next_client
  loops : ∀ n < w.next_client, (w.clients n).eventloop < w.next_loop
  apart : ∀ m < w.next_client, ∀ n < w.next_client, m ≠ n →
    (w.clients m).eventloop ≠ (w.clients n).eventloop
  fed : ∀ n, w.client = some n → Fed w (w.clients n)
  subscribed : ∀ n, w.client = some n → ∀ i topic, (g i).subscribed = some topic →
    Subscribed topic (w.loops (w.clients n).eventloop).requests = true
  listed : ∀ n, w.client = some n → ∀ topic, w.subscriptions[topic]? ≠ none →
    Subscribed topic (w.loops (w.clients n).eventloop).requests = true ∨
      ∃ i, (g i).left = some topic

variable {g : Nat → Pending} {s : Pending}

/-- A client that is as it was, but for what has to do with messages and for going offline. -/
structure Kept (c c' : MqttClient) : Prop where
  asked : c'.asked = c.asked
  handle : c'.handle = c.handle
  eventloop : c'.eventloop = c.eventloop
  online : c'.connected = true → c.connected = true ∧ c'.sleeping = c.sleeping

theorem Kept.refl (c : MqttClient) : Kept c c :=
  ⟨rfl, rfl, rfl, fun h => ⟨h, rfl⟩⟩

/-- The world changes without regard to loops and subscriptions. -/
structure Still (w w' : World) : Prop where
  loops : w'.loops = w.loops
  next_loop : w'.next_loop = w.next_loop
  clients : ∀ n, Kept (w.clients n) (w'.clients n)
  next_client : w'.next_client = w.next_client
  client : w'.client = w.client
  subscriptions : w'.subscriptions = w.subscriptions
  busy : w'.busy = w.busy

theorem Kept.trans {c c' c'' : MqttClient} (h : Kept c c') (h' : Kept c' c'') : Kept c c'' where
  asked := h'.asked.trans h.asked
  handle := h'.handle.trans h.handle
  eventloop := h'.eventloop.trans h.eventloop
  online honline := by
    obtain ⟨hbefore, hsleeping⟩ := h'.online honline
    obtain ⟨hfirst, hsleeping'⟩ := h.online hbefore
    exact ⟨hfirst, hsleeping.trans hsleeping'⟩

theorem Still.trans {w'' : World} (h : Still w w') (h' : Still w' w'') : Still w w'' where
  loops := h'.loops.trans h.loops
  next_loop := h'.next_loop.trans h.next_loop
  clients n := (h.clients n).trans (h'.clients n)
  next_client := h'.next_client.trans h.next_client
  client := h'.client.trans h.client
  subscriptions := h'.subscriptions.trans h.subscriptions
  busy := h'.busy.trans h.busy

theorem still_setClient {n : Nat} {c : MqttClient} (hc : Kept (w.clients n) c) :
    Still w (w.setClient n c) := by
  refine ⟨rfl, rfl, fun m => ?_, rfl, rfl, rfl, rfl⟩
  by_cases hm : m = n
  · subst hm
    change Kept _ (Function.update w.clients m c m)
    rw [Function.update_self]
    exact hc
  · change Kept _ (Function.update w.clients n c m)
    rw [Function.update_of_ne hm]
    exact .refl _

theorem SessionInv.still (h : SessionInv serde requests g w) (hs : Still w w') : SessionInv serde requests g w' := by
  refine ⟨h.req, ?_, h.made, h.left, ?_, ?_, ?_, fun n hn => ?_, fun n hn => ?_, fun n hn => ?_⟩
  · rw [hs.busy]
    exact h.busy
  · rw [hs.client, hs.next_client]
    exact h.client
  · rw [hs.next_client, hs.next_loop]
    intro n hn
    rw [(hs.clients n).eventloop]
    exact h.loops n hn
  · rw [hs.next_client]
    intro m hm n hn hne
    rw [(hs.clients m).eventloop, (hs.clients n).eventloop]
    exact h.apart m hm n hn hne
  · rw [hs.client] at hn
    have hfed := h.fed n hn
    have hk := hs.clients n
    refine ⟨?_, ?_, ?_, fun honline => ?_⟩
    · rw [hk.handle, hk.eventloop]
      exact hfed.feeds
    · rw [hs.loops, hk.eventloop]
      exact hfed.alive
    · rw [hs.loops, hk.eventloop, hk.asked]
      exact hfed.options
    · obtain ⟨hbefore, hsleeping⟩ := hk.online honline
      rw [hsleeping]
      exact hfed.polled hbefore
  · rw [hs.client] at hn
    rw [hs.loops, (hs.clients n).eventloop]
    exact h.subscribed n hn
  · rw [hs.client] at hn
    rw [hs.loops, (hs.clients n).eventloop, hs.subscriptions]
    exact h.listed n hn

/-- Only the action that has the plugin has something left to do. -/
theorem SessionInv.only (h : SessionInv serde requests g w) (hi : (g i).begun = true) (hj : j ≠ i) :
    (g j).subscribed = none ∧ (g j).left = none := by
  have hbusy := h.busy i hi
  have hnot : ¬ (g j).begun = true := by
    intro hbegun
    have hbusy' := h.busy j hbegun
    rw [hbusy] at hbusy'
    exact hj (Option.some.inj hbusy').symm
  constructor
  · cases hsubscribed : (g j).subscribed with
    | none => rfl
    | some topic => exact absurd (h.made j topic hsubscribed) hnot
  · cases hleft : (g j).left with
    | none => rfl
    | some topic => exact absurd (h.left j topic hleft).1 hnot

/-- While an action that has settled what it has done has the plugin, nothing is left to be done. -/
theorem SessionInv.settled (h : SessionInv serde requests g w) (hi : (g i).Settled) (j : Nat) :
    (g j).subscribed = none ∧ (g j).left = none := by
  by_cases hj : j = i
  · subst hj
    exact hi.2
  · exact h.only hi.1 hj

/-! ### The subscriptions -/

theorem subscribed_cons {topic : String} {r : Request} {rs : List Request}
    (hr : r ≠ .Unsubscribe topic) (h : Subscribed topic rs = true) : Subscribed topic (r :: rs) = true := by
  cases r with
  | Subscribe t qos =>
    unfold Subscribed
    rw [h, Bool.or_true]
  | Unsubscribe t =>
    have hne : t ≠ topic := fun ht => hr (congrArg Request.Unsubscribe ht)
    unfold Subscribed
    rw [h, decide_eq_true hne]
    rfl
  | Publish t qos retain payload => exact h
  | Disconnect => exact h

/-- A request has reached the loop of the plugin's client. -/
theorem SessionInv.accepted {n : Nat} {r : Request} (h : SessionInv serde requests g w)
    (hi : (g i).begun = true) (hn : w.client = some n)
    (hreq : s.req = (g i).req) (hbegun : s.begun = true)
    (hsubscribed : ∀ topic, s.subscribed = some topic →
      (g i).subscribed = some topic ∧ r ≠ .Unsubscribe topic ∨ ∃ qos, r = .Subscribe topic qos)
    (hleft : ∀ topic, s.left = some topic → leaves serde (requests i) = some topic)
    (hkeep : ∀ topic, (g i).left = some topic → s.left = some topic)
    (hleaves : ∀ topic, r = .Unsubscribe topic → s.left = some topic) :
    SessionInv serde requests (Function.update g i s) { w with
      loops := Function.update w.loops (w.clients n).handle
        { w.loops (w.clients n).handle with
          requests := r :: (w.loops (w.clients n).handle).requests } } := by
  have hfeeds := (h.fed n hn).feeds
  rw [hfeeds]
  have hloop : Function.update w.loops (w.clients n).eventloop
      { w.loops (w.clients n).eventloop with
        requests := r :: (w.loops (w.clients n).eventloop).requests } (w.clients n).eventloop =
      { w.loops (w.clients n).eventloop with
        requests := r :: (w.loops (w.clients n).eventloop).requests } := Function.update_self _ _ _
  have hsame : ∀ m, w.client = some m → m = n := fun m hm => Option.some.inj (hm.symm.trans hn)
  refine ⟨fun j => ?_, fun j hj => ?_, fun j topic hj => ?_, fun j topic hj => ?_, h.client, h.loops,
    h.apart, fun m hm => ?_, fun m hm j topic hj => ?_, fun m hm topic htopic => ?_⟩
  · by_cases hji : j = i
    · subst hji
      rw [Function.update_self, hreq]
      exact h.req j
    · rw [Function.update_of_ne hji]
      exact h.req j
  · by_cases hji : j = i
    · subst hji
      exact h.busy j hi
    · rw [Function.update_of_ne hji] at hj
      exact h.busy j hj
  · by_cases hji : j = i
    · subst hji
      rw [Function.update_self]
      exact hbegun
    · rw [Function.update_of_ne hji] at hj ⊢
      exact h.made j topic hj
  · by_cases hji : j = i
    · subst hji
      rw [Function.update_self] at hj ⊢
      exact ⟨hbegun, hleft topic hj⟩
    · rw [Function.update_of_ne hji] at hj ⊢
      exact h.left j topic hj
  · obtain rfl := hsame m hm
    have hfed := h.fed m hm
    refine ⟨hfed.feeds, ?_, ?_, hfed.polled⟩
    · dsimp only
      rw [hloop]
      exact hfed.alive
    · dsimp only
      rw [hloop]
      exact hfed.options
  · obtain rfl := hsame m hm
    dsimp only
    rw [hloop]
    by_cases hji : j = i
    · subst hji
      rw [Function.update_self] at hj
      rcases hsubscribed topic hj with ⟨hold, hne⟩ | ⟨qos, rfl⟩
      · exact subscribed_cons hne (h.subscribed m hm j topic hold)
      · unfold Subscribed
        rw [decide_eq_true rfl, Bool.true_or]
    · rw [Function.update_of_ne hji, (h.only hi hji).1] at hj
      cases hj
  · obtain rfl := hsame m hm
    dsimp only at htopic ⊢
    rw [hloop]
    by_cases hr : r = .Unsubscribe topic
    · refine .inr ⟨i, ?_⟩
      rw [Function.update_self]
      exact hleaves topic hr
    · refine (h.listed m hm topic htopic).imp (subscribed_cons hr) ?_
      rintro ⟨j, hj⟩
      refine ⟨j, ?_⟩
      by_cases hji : j = i
      · subst hji
        rw [Function.update_self]
        exact hkeep topic hj
      · rw [Function.update_of_ne hji]
        exact hj

/-- An action changes what it has still to do to the table, and the table. -/
theorem SessionInv.table {t : Table String QoS} {busy : Option Nat}
    (h : SessionInv serde requests g w) (hreq : s.req = (g i).req)
    (hbusy : s.begun = true → busy = some i)
    (hmade : ∀ topic, s.subscribed = some topic →
      s.begun = true ∧ (g i).subscribed = some topic)
    (hleft : ∀ topic, s.left = some topic → s.begun = true ∧ (g i).left = some topic)
    (hlisted : ∀ n, w.client = some n → ∀ topic, t[topic]? ≠ none →
      Subscribed topic (w.loops (w.clients n).eventloop).requests = true ∨ s.left = some topic)
    (hothers : ∀ j, j ≠ i → (g j).begun = false) :
    SessionInv serde requests (Function.update g i s) { w with subscriptions := t, busy } := by
  refine ⟨fun j => ?_, fun j hj => ?_, fun j topic hj => ?_, fun j topic hj => ?_, h.client, h.loops,
    h.apart, fun m hm => ?_, fun m hm j topic hj => ?_, fun m hm topic htopic => ?_⟩
  · by_cases hji : j = i
    · subst hji
      rw [Function.update_self, hreq]
      exact h.req j
    · rw [Function.update_of_ne hji]
      exact h.req j
  · by_cases hji : j = i
    · subst hji
      rw [Function.update_self] at hj
      exact hbusy hj
    · rw [Function.update_of_ne hji, hothers j hji] at hj
      cases hj
  · by_cases hji : j = i
    · subst hji
      rw [Function.update_self] at hj ⊢
      exact (hmade topic hj).1
    · rw [Function.update_of_ne hji] at hj ⊢
      exact h.made j topic hj
  · by_cases hji : j = i
    · subst hji
      rw [Function.update_self] at hj ⊢
      exact ⟨(hleft topic hj).1, (h.left j topic (hleft topic hj).2).2⟩
    · rw [Function.update_of_ne hji] at hj ⊢
      exact h.left j topic hj
  · have hfed := h.fed m hm
    exact ⟨hfed.feeds, hfed.alive, hfed.options, hfed.polled⟩
  · by_cases hji : j = i
    · subst hji
      rw [Function.update_self] at hj
      exact h.subscribed m hm j topic (hmade topic hj).2
    · rw [Function.update_of_ne hji] at hj
      exact h.subscribed m hm j topic hj
  · refine (hlisted m hm topic htopic).imp_right fun hs => ⟨i, ?_⟩
    rw [Function.update_self]
    exact hs

/-! ### The connections -/

/-- A new client becomes that of the plugin. -/
theorem SessionInv.connect {asked : Connect} {options : MqttOptions}
    (h : SessionInv serde requests g w) (hi : (g i).Settled) (hoptions : options = asked.asked)
    (hempty : w.subscriptions.keys = []) :
    SessionInv serde requests g (w.connect asked options) := by
  have hclient : ∀ n, (w.connect asked options).client = some n → n = w.next_client :=
    fun n hn => (Option.some.inj hn).symm
  have hnew : (w.connect asked options).clients w.next_client = .new asked w.next_loop :=
    Function.update_self _ _ _
  have hold : ∀ n, n ≠ w.next_client → (w.connect asked options).clients n = w.clients n :=
    fun n hn => Function.update_of_ne hn _ _
  have hloop : (w.connect asked options).loops w.next_loop = .new options :=
    Function.update_self _ _ _
  refine ⟨h.req, h.busy, h.made, h.left, fun n hn => ?_, fun n hn => ?_, fun m hm n hn hne => ?_,
    fun n hn => ?_, fun n hn j topic hj => ?_, fun n hn topic htopic => ?_⟩
  · rw [hclient n hn]
    exact Nat.lt_succ_self _
  · change _ < w.next_loop + 1
    by_cases hnext : n = w.next_client
    · rw [hnext, hnew]
      exact Nat.lt_succ_self _
    · rw [hold n hnext]
      have hlt : n < w.next_client + 1 := hn
      exact Nat.lt_succ_of_lt (h.loops n (by omega))
  · have hlt : ∀ k, k < (w.connect asked options).next_client → k ≠ w.next_client →
        k < w.next_client := fun k hk hne => Nat.lt_of_le_of_ne (Nat.le_of_lt_succ hk) hne
    by_cases hmnext : m = w.next_client
    · have hnnext : n ≠ w.next_client := fun hn' => hne (hmnext.trans hn'.symm)
      rw [hmnext, hnew, hold n hnnext]
      exact (Nat.ne_of_lt (h.loops n (hlt n hn hnnext))).symm
    · by_cases hnnext : n = w.next_client
      · rw [hnnext, hnew, hold m hmnext]
        exact Nat.ne_of_lt (h.loops m (hlt m hm hmnext))
      · rw [hold m hmnext, hold n hnnext]
        exact h.apart m (hlt m hm hmnext) n (hlt n hn hnnext) hne
  · rw [hclient n hn, hnew]
    refine ⟨rfl, ?_, ?_, fun _ => rfl⟩
    · exact congrArg EventLoop.alive hloop
    · exact (congrArg EventLoop.options hloop).trans hoptions
  · rw [(h.settled hi j).1] at hj
    cases hj
  · refine absurd ?_ htopic
    have hnot : topic ∉ w.subscriptions := by
      rw [← Std.ExtTreeMap.mem_keys, hempty]
      exact List.not_mem_nil
    exact Std.ExtTreeMap.getElem?_eq_none hnot

/-- Another client connects again. -/
theorem SessionInv.reconnect {n : Nat} (h : SessionInv serde requests g w) (hn : n < w.next_client)
    (hother : w.client ≠ some n) : SessionInv serde requests g (w.reconnect n) := by
  have hnew : (w.reconnect n).clients n =
      { w.clients n with connected := true, sleeping := false, eventloop := w.next_loop } :=
    Function.update_self _ _ _
  have hold : ∀ m, m ≠ n → (w.reconnect n).clients m = w.clients m :=
    fun m hm => Function.update_of_ne hm _ _
  have hne : ∀ m, w.client = some m → m ≠ n := by
    rintro m hm rfl
    exact hother hm
  -- the loop of the plugin's client is neither the one that is gone nor the new one
  have hloop : ∀ m, w.client = some m →
      (w.reconnect n).loops ((w.reconnect n).clients m).eventloop =
        w.loops (w.clients m).eventloop := by
    intro m hm
    rw [hold m (hne m hm)]
    have hlt := h.loops m (h.client m hm)
    refine (Function.update_of_ne (Nat.ne_of_lt hlt) _ _).trans ?_
    exact Function.update_of_ne (h.apart m (h.client m hm) n hn (hne m hm)) _ _
  refine ⟨h.req, h.busy, h.made, h.left, h.client, fun m hm => ?_, fun a ha b hb hab => ?_,
    fun m hm => ?_, fun m hm => ?_, fun m hm => ?_⟩
  · change _ < w.next_loop + 1
    by_cases hmn : m = n
    · rw [hmn, hnew]
      exact Nat.lt_succ_self _
    · rw [hold m hmn]
      exact Nat.lt_succ_of_lt (h.loops m hm)
  · by_cases han : a = n
    · have hbn : b ≠ n := fun hb' => hab (han.trans hb'.symm)
      rw [han, hnew, hold b hbn]
      exact (Nat.ne_of_lt (h.loops b hb)).symm
    · by_cases hbn : b = n
      · rw [hbn, hnew, hold a han]
        exact Nat.ne_of_lt (h.loops a ha)
      · rw [hold a han, hold b hbn]
        exact h.apart a ha b hb hab
  · have hfed := h.fed m hm
    refine ⟨?_, ?_, ?_, ?_⟩
    · rw [hold m (hne m hm)]
      exact hfed.feeds
    · rw [hloop m hm]
      exact hfed.alive
    · rw [hloop m hm, hold m (hne m hm)]
      exact hfed.options
    · rw [hold m (hne m hm)]
      exact hfed.polled
  · rw [hloop m hm]
    exact h.subscribed m hm
  · rw [hloop m hm]
    exact h.listed m hm

/-- What is listed and not subscribed is left by the action that has the plugin. -/
theorem SessionInv.listed_of (h : SessionInv serde requests g w) (hi : (g i).begun = true) {n : Nat}
    (hn : w.client = some n) {topic : String} (htopic : w.subscriptions[topic]? ≠ none) :
    Subscribed topic (w.loops (w.clients n).eventloop).requests = true ∨ (g i).left = some topic := by
  refine (h.listed n hn topic htopic).imp_right ?_
  rintro ⟨j, hj⟩
  by_cases hji : j = i
  · exact hji ▸ hj
  · rw [(h.only hi hji).2] at hj
    cases hj

theorem SessionInv.others (h : SessionInv serde requests g w) (hi : (g i).begun = true) (j : Nat)
    (hji : j ≠ i) : (g j).begun = false := by
  cases hj : (g j).begun with
  | false => rfl
  | true => exact absurd (Option.some.inj ((h.busy j hj).symm.trans (h.busy i hi))) hji

/-! ### Steps -/

/-- An action changes neither a loop nor the table. -/
theorem SessionInv.step_still (h : SessionInv serde requests g w) (hs : Still w w') :
    ∃ s, s = g i ∧ SessionInv serde requests (Function.update g i s) w' := by
  refine ⟨g i, rfl, ?_⟩
  rw [Function.update_eq_self]
  exact h.still hs

theorem still_refl (w : World) : Still w w :=
  ⟨rfl, rfl, fun _ => .refl _, rfl, rfl, rfl, rfl⟩

/-- One effect of an action. -/
theorem session_act {e : Eff} {a : e.Answer} (h : SessionInv serde requests g w)
    (hallowed : (g i).Allowed serde e) (hw : Handle i w e a w') (hcond : Unbroken w (.act i e a)) :
    ∃ s, (g i).Next e a s ∧ SessionInv serde requests (Function.update g i s) w' := by
  unfold Handle World.serve at hw
  cases e with
  | ready =>
    dsimp only at hw
    split_ifs at hw with hfree
    obtain ⟨rfl, rfl⟩ := Prod.mk.inj (Option.some.inj hw)
    have hnone : ∀ j, (g j).begun = false := by
      intro j
      cases hj : (g j).begun with
      | false => rfl
      | true =>
        have hbusy := h.busy j hj
        rw [hfree] at hbusy
        cases hbusy
    refine ⟨_, rfl, h.table rfl (fun _ => rfl) (fun t ht => ⟨rfl, ht⟩) (fun t ht => ⟨rfl, ht⟩) ?_
      fun j _ => hnone j⟩
    intro n hn topic htopic
    refine (h.listed n hn topic htopic).imp_right ?_
    rintro ⟨j, hj⟩
    have hbegun := (h.left j topic hj).1
    rw [hnone j] at hbegun
    cases hbegun
  | connect asked =>
    dsimp only at hw
    split at hw
    · obtain ⟨rfl, rfl⟩ := Prod.mk.inj (Option.some.inj hw)
      exact h.step_still (still_refl w)
    · rename_i options hoptions
      obtain ⟨rfl, rfl⟩ := Prod.mk.inj (Option.some.inj hw)
      refine ⟨_, rfl, ?_⟩
      rw [Function.update_eq_self]
      exact h.connect hallowed (connect_options_asked hoptions) hcond
  | client =>
    obtain ⟨rfl, rfl⟩ := Prod.mk.inj (Option.some.inj hw)
    exact h.step_still (still_refl w)
  | clear_client =>
    obtain ⟨rfl, rfl⟩ := Prod.mk.inj (Option.some.inj hw)
    refine ⟨_, rfl, ?_⟩
    rw [Function.update_eq_self]
    exact ⟨h.req, h.busy, h.made, h.left, by rintro n ⟨⟩, h.loops, h.apart, by rintro n ⟨⟩, by rintro n ⟨⟩,
      by rintro n ⟨⟩⟩
  | request r =>
    dsimp only at hw
    split at hw
    · cases hw
    · rename_i c hc
      obtain ⟨n, hn, rfl⟩ := Option.map_eq_some_iff.mp hc
      cases hrequest : w.request (w.clients n) r with
      | error error =>
        rw [hrequest] at hw
        obtain ⟨rfl, rfl⟩ := Prod.mk.inj (Option.some.inj hw)
        have hstill : Still w { w with receiver := none } :=
          ⟨rfl, rfl, fun _ => .refl _, rfl, rfl, rfl, rfl⟩
        cases r with
        | _ => exact h.step_still hstill
      | ok w₁ =>
        rw [hrequest] at hw
        obtain ⟨rfl, rfl⟩ := Prod.mk.inj (Option.some.inj hw)
        unfold World.request at hrequest
        dsimp only at hrequest
        split at hrequest
        · cases hrequest
        · split_ifs at hrequest
          obtain rfl := Except.ok.inj hrequest
          cases r with
          | Publish topic qos retain payload =>
            refine ⟨_, rfl, h.accepted hallowed hn rfl hallowed (fun t ht => .inl ⟨ht, fun hq => by cases hq⟩)
              (fun t ht => (h.left i t ht).2) (fun t ht => ht) (fun t ht => by cases ht)⟩
          | Disconnect =>
            refine ⟨_, rfl, h.accepted hallowed hn rfl hallowed (fun t ht => .inl ⟨ht, fun hq => by cases hq⟩)
              (fun t ht => (h.left i t ht).2) (fun t ht => ht) (fun t ht => by cases ht)⟩
          | Subscribe topic qos =>
            refine ⟨_, rfl, h.accepted hallowed.1 hn rfl hallowed.1 (fun t ht => .inr ⟨qos, ?_⟩)
              (fun t ht => (h.left i t ht).2) (fun t ht => ht) (fun t ht => by cases ht)⟩
            obtain rfl := Option.some.inj ht
            rfl
          | Unsubscribe topic =>
            obtain ⟨hsettled, hleaves⟩ := hallowed
            refine ⟨_, rfl, h.accepted hsettled.1 hn rfl hsettled.1 (fun t ht => ?_) (fun t ht => ?_)
              (fun t ht => ?_) (fun t ht => ?_)⟩
            · have hnone := hsettled.2.1
              rw [show (g i).subscribed = some t from ht] at hnone
              cases hnone
            · obtain rfl := Option.some.inj ht
              rw [← h.req i]
              exact hleaves
            · have hnone := hsettled.2.2
              rw [ht] at hnone
              cases hnone
            · rw [Request.Unsubscribe.inj ht]
  | set_disconnected =>
    dsimp only at hw
    split at hw
    · cases hw
    · obtain ⟨rfl, rfl⟩ := Prod.mk.inj (Option.some.inj hw)
      exact h.step_still (still_setClient ⟨rfl, rfl, rfl, by rintro ⟨⟩⟩)
  | new_v4 =>
    obtain ⟨rfl, rfl⟩ := Prod.mk.inj (Option.some.inj hw)
    exact h.step_still ⟨rfl, rfl, fun _ => .refl _, rfl, rfl, rfl, rfl⟩
  | insert_pending topic =>
    dsimp only at hw
    split at hw
    · cases hw
    · rename_i n hn
      obtain ⟨rfl, rfl⟩ := Prod.mk.inj (Option.some.inj hw)
      have hstill := still_setClient (w := w) (n := n)
        (c := { w.clients n with pending := (w.clients n).pending.insert topic i })
        ⟨rfl, rfl, rfl, fun honline => ⟨honline, rfl⟩⟩
      exact h.step_still ⟨hstill.loops, hstill.next_loop, hstill.clients, hstill.next_client,
        hstill.client, hstill.subscriptions, hstill.busy⟩
  | reply_rx timeout_ms =>
    have hstill : Still w w' := by
      dsimp only at hw
      split at hw
      · cases hw
      · rename_i rc hrc
        by_cases hid : rc.id = i
        · rw [if_pos hid] at hw
          cases hmsg : rc.reply with
          | some msg =>
            rw [hmsg] at hw
            obtain ⟨-, rfl⟩ := Prod.mk.inj (Option.some.inj hw)
            exact ⟨rfl, rfl, fun _ => .refl _, rfl, rfl, rfl, rfl⟩
          | none =>
            rw [hmsg] at hw
            dsimp only at hw
            split_ifs at hw
            obtain ⟨-, rfl⟩ := Prod.mk.inj (Option.some.inj hw)
            exact ⟨rfl, rfl, fun _ => .refl _, rfl, rfl, rfl, rfl⟩
        · rw [if_neg hid] at hw
          cases hw
    cases a with
    | none => exact h.step_still hstill
    | some msg => exact h.step_still hstill
  | add_subscription topic qos =>
    obtain ⟨rfl, rfl⟩ := Prod.mk.inj (Option.some.inj hw)
    obtain ⟨hi, hsubscribed⟩ := hallowed
    refine ⟨_, rfl, h.table rfl (fun _ => h.busy i hi) (fun t ht => ⟨hi, ht⟩) (fun t ht => ⟨hi, ht⟩) ?_
      (h.others hi)⟩
    intro n hn topic' htopic
    rw [Table.getElem?_insert_ite] at htopic
    split_ifs at htopic with hsame
    · rw [← hsame]
      exact .inl (h.subscribed n hn i topic hsubscribed)
    · exact h.listed_of hi hn htopic
  | remove_subscription topic =>
    obtain ⟨rfl, rfl⟩ := Prod.mk.inj (Option.some.inj hw)
    have hleft : ∀ t, (if (g i).left = some topic then none else (g i).left) = some t →
        (g i).left = some t := by
      intro t ht
      split_ifs at ht
      exact ht
    refine ⟨_, rfl, h.table rfl (fun _ => h.busy i hallowed) (fun t ht => ⟨hallowed, ht⟩)
      (fun t ht => ⟨hallowed, hleft t ht⟩) ?_ (h.others hallowed)⟩
    intro n hn topic' htopic
    rw [Table.getElem?_erase_ite] at htopic
    split_ifs at htopic with hsame
    · exact absurd rfl htopic
    · refine (h.listed_of hallowed hn htopic).imp_right fun hl => ?_
      have hne : (g i).left ≠ some topic := by
        rw [hl]
        exact fun heq => hsame (Option.some.inj heq).symm
      exact (if_neg hne).trans hl
  | count_sent =>
    obtain ⟨rfl, rfl⟩ := Prod.mk.inj (Option.some.inj hw)
    exact h.step_still ⟨rfl, rfl, fun _ => .refl _, rfl, rfl, rfl, rfl⟩
  | count_received =>
    obtain ⟨rfl, rfl⟩ := Prod.mk.inj (Option.some.inj hw)
    exact h.step_still ⟨rfl, rfl, fun _ => .refl _, rfl, rfl, rfl, rfl⟩
  | status =>
    obtain ⟨rfl, rfl⟩ := Prod.mk.inj (Option.some.inj hw)
    exact h.step_still (still_refl w)
  | reply result =>
    obtain ⟨rfl, rfl⟩ := Prod.mk.inj (Option.some.inj hw)
    obtain ⟨hi, hleft⟩ := hallowed
    have hstill : Still w { w with
        history := { w.history with replies := (i, result) :: w.history.replies } } :=
      ⟨rfl, rfl, fun _ => .refl _, rfl, rfl, rfl, rfl⟩
    refine ⟨_, rfl, (h.still hstill).table rfl (fun hbegun => by cases hbegun) (fun t ht => by cases ht) (fun t ht => ?_) ?_ (h.others hi)⟩
    · rw [show (g i).left = some t from ht] at hleft
      cases hleft
    · exact fun n hn topic htopic => (h.still hstill).listed_of hi hn htopic

theorem session_env {l : EnvLabel} (h : SessionInv serde requests g w) (hw : Env w l w')
    (hcond : Unbroken w (.env l)) : SessionInv serde requests g w' := by
  unfold Env World.env at hw
  cases l with
  | message n msg =>
    dsimp only at hw
    split_ifs at hw
    obtain rfl := Option.some.inj hw
    refine h.still ?_
    unfold World.publish
    dsimp only
    split
    · rename_i i hentry
      have hstill := still_setClient (w := w) (n := n)
        (c := { w.clients n with pending := (w.clients n).pending.erase msg.topic })
        ⟨rfl, rfl, rfl, fun honline => ⟨honline, rfl⟩⟩
      have hdeliver : Still (w.setClient n { w.clients n with
            pending := (w.clients n).pending.erase msg.topic })
          (World.deliver (w.setClient n { w.clients n with
            pending := (w.clients n).pending.erase msg.topic }) i msg) := by
        unfold World.deliver
        split
        · split_ifs
          · exact ⟨rfl, rfl, fun _ => .refl _, rfl, rfl, rfl, rfl⟩
          · exact ⟨rfl, rfl, fun _ => .refl _, rfl, rfl, rfl, rfl⟩
        · exact ⟨rfl, rfl, fun _ => .refl _, rfl, rfl, rfl, rfl⟩
      exact hstill.trans hdeliver
    · split_ifs
      · exact still_setClient ⟨rfl, rfl, rfl, fun honline => ⟨honline, rfl⟩⟩
      · exact still_refl w
  | lost n =>
    dsimp only at hw
    split_ifs at hw
    obtain rfl := Option.some.inj hw
    exact h.still (still_setClient ⟨rfl, rfl, rfl, nofun⟩)
  | reconnected n =>
    dsimp only at hw
    split_ifs at hw with hn
    obtain rfl := Option.some.inj hw
    exact h.reconnect hn.1 hcond
  | turn l =>
    obtain rfl := Option.some.inj hw
    exact h.still ⟨rfl, rfl, fun _ => .refl _, rfl, rfl, rfl, rfl⟩

theorem SessionInv.transparent (h : SessionInv serde requests g w) : Transparent serde requests w := by
  intro c hc honline
  obtain ⟨n, hn, rfl⟩ := Option.map_eq_some_iff.mp hc
  have hfed := h.fed n hn
  refine ⟨hfed.polled honline, hfed.feeds, hfed.alive, hfed.options, fun topic htopic hnot => ?_⟩
  rcases h.listed n hn topic htopic with hsubscribed | ⟨i, hi⟩
  · exact hsubscribed
  · obtain ⟨hbegun, hleaves⟩ := h.left i topic hi
    exact absurd hleaves (hnot i (h.busy i hbegun))

/-- A connection, and a subscription. -/
def subscription : Nat → ActionRequest
  | 0 => { action := "mqtt_connect", params_json := (Json.obj [("broker_host", .str "hub")]).toVec }
  | _ => { action := "mqtt_subscribe", params_json := (Json.obj [("topic", .str "home")]).toVec }

/-- The plugin connects and subscribes. -/
def subscribing : List Move :=
  List.replicate 3 (.act 0) ++ List.replicate 5 (.act 1)

/-- The connection is lost, and the task connects again. -/
def reconnecting : List Move :=
  subscribing ++ [.env (.lost 0), .env (.reconnected 0)]

end Mqtt
