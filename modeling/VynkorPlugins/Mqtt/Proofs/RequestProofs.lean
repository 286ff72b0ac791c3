import VynkorPlugins.Mqtt.Proofs.ActionProofs

/-!
# Commands and their answers

A command names itself, leaves an entry under the topic of its answers and waits. What it is answered
with has come while it waited.
-/

namespace Mqtt

open Async Transition

variable {serde : Serde} {base64 : Base64} {requests : Nat → ActionRequest} {w w' : World}
  {i j : Nat}

/-! ## What an action does -/

/-- What a command has at hand: the id that it has sent, and the message that it was answered with. -/
structure Local where
  action : String
  id : Option String
  answer : Option MqttMessage

def Local.start (action : String) : Local where
  action
  id := none
  answer := none

def Local.Allowed (serde : Serde) (s : Local) : Eff → Prop
  | .new_v4 => s.id = none
  | .insert_pending _ => s.id ≠ none
  | .reply res => FromOwn serde s.action s.id (fun msg => s.answer = some msg) res
  | _ => True

def Local.Next (s : Local) : (e : Eff) → e.Answer → Local → Prop
  | .new_v4, id, s' => s' = { s with id := some id }
  | .reply_rx _, some msg, s' => s' = { s with answer := some msg }
  | _, _, s' => s' = s

def commandProtocol (serde : Serde) : Protocol Eff Eff.Answer Local where
  allowed s := s.Allowed serde
  next s := s.Next

/-- The effects of the actions that are not commands. -/
def Plain : Eff → Prop
  | .ready | .connect _ | .client | .clear_client | .request _ | .set_disconnected
  | .add_subscription .. | .remove_subscription _ | .count_sent | .count_received | .status => True
  | _ => False

variable {s : Local} {α : Type}

theorem obeys_of_plain {m : Act α} (h : Asks Plain m) :
    Obeys (commandProtocol serde) (fun s' _ => s' = s) s m := by
  induction h with
  | done => rfl
  | @call e k he _ ih =>
    cases e with
    | new_v4 => cases he
    | insert_pending topic => cases he
    | reply_rx timeout_ms => cases he
    | reply result => cases he
    | _ => exact ⟨trivial, fun a s' hs => hs ▸ ih a⟩

theorem plain_of_basic (e : Eff) (h : Basic e) : Plain e := by
  unfold Basic at h
  split at h <;> trivial

theorem asks_handle_subscribe (params_json : ByteArray) :
    Asks Plain (handle_subscribe serde params_json) := by
  unfold handle_subscribe
  split
  · exact .done
  · refine asks_client trivial (.call trivial fun a => ?_) .done
    cases a with
    | error e => exact .done
    | ok _ => exact .call trivial fun _ => .done

theorem asks_handle_unsubscribe (params_json : ByteArray) :
    Asks Plain (handle_unsubscribe serde params_json) := by
  unfold handle_unsubscribe
  split
  · exact .done
  · refine asks_client trivial (.call trivial fun a => ?_) .done
    cases a with
    | error e => exact .done
    | ok _ => exact .call trivial fun _ => .done

/-! ## Commands -/

theorem obeys_request (hid : s.id ≠ none) (request_topic response_topic : String)
    (payload : ByteArray) (timeout_ms : Nat) :
    Obeys (commandProtocol serde)
      (fun s' res => s'.action = s.action ∧ s'.id = s.id ∧ ∀ msg, res = .ok msg → s'.answer = some msg)
      s
      (MqttClient.request request_topic response_topic payload timeout_ms) := by
  refine ⟨hid, ?_⟩
  rintro - s' rfl
  refine ⟨trivial, ?_⟩
  rintro (e | _) s' rfl
  · exact ⟨rfl, rfl, nofun⟩
  refine ⟨trivial, ?_⟩
  rintro (_ | msg) s' rfl
  · exact ⟨rfl, rfl, nofun⟩
  · refine ⟨rfl, rfl, fun msg' hmsg => ?_⟩
    cases hmsg
    rfl

/-- What an action ends with. -/
def Handles (serde : Serde) (s : Local) (res : Handled) : Prop :=
  FromOwn serde s.action s.id (fun msg => s.answer = some msg) res

theorem handles_device_command (haction : s.action = "mqtt_device_command") {v : Json}
    (h : (∃ timeout_ms, v = command_timeout timeout_ms) ∨
      ∃ msg, s.answer = some msg ∧ v = command_answer serde msg) : Handles serde s (.ok v) :=
  ⟨fun _ => h, fun hota => absurd (haction.symm.trans hota) (by decide)⟩

theorem handles_ota_update (haction : s.action = "mqtt_ota_update") {v : Json}
    (h : ∃ msg_id, s.id = some msg_id ∧
      (v = ota_timeout msg_id ∨ ∃ msg, s.answer = some msg ∧ v = ota_answer serde msg_id msg)) :
    Handles serde s (.ok v) :=
  ⟨fun hcommand => absurd (haction.symm.trans hcommand) (by decide), fun _ => h⟩

theorem obeys_handle_device_command (haction : s.action = "mqtt_device_command") (hid : s.id = none)
    (params_json : ByteArray) :
    Obeys (commandProtocol serde) (Handles serde) s
      (handle_device_command serde params_json) := by
  unfold handle_device_command
  split
  · trivial
  rename_i c hc
  refine ⟨hid, ?_⟩
  rintro msg_id s' rfl
  refine ⟨trivial, ?_⟩
  rintro (_ | _) s' rfl
  · trivial
  refine (obeys_request (s := { s with id := some msg_id }) nofun _ _ _ _).bind ?_
  rintro s' (e | response) ⟨hsame, -, hanswer⟩
  · cases e with
    | Timeout =>
      refine ⟨trivial, ?_⟩
      rintro sent s₂ rfl
      exact handles_device_command (hsame.trans haction) (.inl ⟨_, rfl⟩)
    | _ => trivial
  · refine ⟨trivial, ?_⟩
    rintro sent s₂ rfl
    refine ⟨trivial, ?_⟩
    rintro received s₃ rfl
    exact handles_device_command (hsame.trans haction) (.inr ⟨response, hanswer response rfl, rfl⟩)

theorem obeys_handle_ota_update (haction : s.action = "mqtt_ota_update") (hid : s.id = none)
    (params_json : ByteArray) :
    Obeys (commandProtocol serde) (Handles serde) s
      (handle_ota_update serde params_json) := by
  unfold handle_ota_update
  split
  · trivial
  rename_i c hc
  refine ⟨hid, ?_⟩
  rintro msg_id s' rfl
  refine ⟨trivial, ?_⟩
  rintro (_ | _) s' rfl
  · trivial
  refine (obeys_request (s := { s with id := some msg_id }) nofun _ _ _ _).bind ?_
  rintro s' (e | response) ⟨hsame, hid', hanswer⟩
  · cases e with
    | Timeout => exact handles_ota_update (hsame.trans haction) ⟨msg_id, hid', .inl rfl⟩
    | _ => trivial
  · exact handles_ota_update (hsame.trans haction) ⟨msg_id, hid', .inr ⟨response, hanswer response rfl, rfl⟩⟩

theorem handles_other {res : Handled} (hcommand : s.action ≠ "mqtt_device_command")
    (hota : s.action ≠ "mqtt_ota_update") : Handles serde s res := by
  cases res with
  | error e => trivial
  | ok v => exact ⟨fun h => absurd h hcommand, fun h => absurd h hota⟩

theorem obeys_plain {m : Act Handled} (hm : Asks Plain m) (hcommand : s.action ≠ "mqtt_device_command")
    (hota : s.action ≠ "mqtt_ota_update") :
    Obeys (commandProtocol serde) (Handles serde) s m :=
  (obeys_of_plain hm).mono fun _ _ hs => hs ▸ handles_other hcommand hota

theorem obeys_handle_action (req : ActionRequest) :
    Obeys (commandProtocol serde) (Handles serde) (.start req.action)
      (handle_action serde base64 req) := by
  unfold handle_action
  split
  · rename_i h
    exact obeys_plain ((asks_handle_connect _).mono plain_of_basic) (h ▸ by decide) (h ▸ by decide)
  · rename_i h
    exact obeys_plain (asks_handle_disconnect.mono plain_of_basic) (h ▸ by decide) (h ▸ by decide)
  · rename_i h
    exact obeys_plain ((asks_handle_publish _).mono plain_of_basic) (h ▸ by decide) (h ▸ by decide)
  · rename_i h
    exact obeys_plain (asks_handle_subscribe _) (h ▸ by decide) (h ▸ by decide)
  · rename_i h
    exact obeys_plain (asks_handle_unsubscribe _) (h ▸ by decide) (h ▸ by decide)
  · rename_i h
    exact obeys_plain (asks_handle_status.mono plain_of_basic) (h ▸ by decide) (h ▸ by decide)
  · rename_i h
    exact obeys_handle_device_command h rfl _
  · rename_i h
    exact obeys_handle_ota_update h rfl _
  · trivial

theorem obeys_on_message (req : ActionRequest) :
    Obeys (commandProtocol serde) (fun _ _ => True) (.start req.action)
      (on_message serde base64 req) := by
  refine ⟨trivial, ?_⟩
  rintro - s' rfl
  refine (obeys_handle_action req).bind ?_
  intro s' res hres
  exact ⟨hres, fun _ _ _ => trivial⟩

/-! ## Runs -/

/-- A message carries the id of a command. -/
def Own (serde : Serde) (h : History) (i : Nat) (msg : MqttMessage) : Prop :=
  ∃ id, h.request_id i = some id ∧ request_id serde msg = some id

theorem FromOwn.mono {action : String} {id : Option String} {own own' : MqttMessage → Prop}
    {res : Handled} (h : FromOwn serde action id own res) (hown : ∀ msg, own msg → own' msg) :
    FromOwn serde action id own' res := by
  cases res with
  | error e => trivial
  | ok v =>
    refine ⟨fun hcommand => (h.1 hcommand).imp_right ?_, fun hota => ?_⟩
    · rintro ⟨msg, hmsg, hv⟩
      exact ⟨msg, hown msg hmsg, hv⟩
    · obtain ⟨msg_id, hid, hv⟩ := h.2 hota
      refine ⟨msg_id, hid, hv.imp_right ?_⟩
      rintro ⟨msg, hmsg, hv⟩
      exact ⟨msg, hown msg hmsg, hv⟩

/-- The commands and the world. -/
structure Inv (serde : Serde) (requests : Nat → ActionRequest) (g : Nat → Local) (w : World) :
    Prop where
  action : ∀ i, (g i).action = (requests i).action
  id : ∀ i, (g i).id = w.history.request_id i
  answer : ∀ i msg, (g i).answer = some msg → (i, msg) ∈ w.history.answered
  reply : ∀ r msg, w.receiver = some r → r.reply = some msg → Own serde w.history r.id msg
  answers : OwnAnswers serde requests w

variable {g : Nat → Local}

/-- Nothing happens that has to do with answers. -/
theorem Inv.stay (h : Inv serde requests g w) (hhistory : w'.history = w.history)
    (hreceiver : w'.receiver = w.receiver ∨ w'.receiver = none) :
    Inv serde requests (Function.update g i (g i)) w' := by
  rw [Function.update_eq_self]
  refine ⟨h.action, ?_, ?_, fun r msg hr hmsg => ?_, ?_, ?_, ?_⟩
  · rw [hhistory]
    exact h.id
  · rw [hhistory]
    exact h.answer
  · rw [hhistory]
    rcases hreceiver with hsame | hnone
    · exact h.reply r msg (hsame ▸ hr) hmsg
    · rw [hnone] at hr
      cases hr
  · rw [hhistory]
    exact h.answers.own
  · rw [hhistory]
    exact h.answers.reported
  · rw [hhistory]
    exact h.answers.late

/-- A command names itself. -/
theorem Inv.new_v4 (h : Inv serde requests g w) (hid : (g i).id = none) (uuid : String) :
    Inv serde requests (Function.update g i { g i with id := some uuid })
      { w with history := { w.history with
        request_id := Function.update w.history.request_id i (some uuid) } } := by
  have hnone : w.history.request_id i = none := (h.id i).symm.trans hid
  -- no answer of the command is there yet
  have hkeep : ∀ j msg, Own serde w.history j msg →
      ∃ id, Function.update w.history.request_id i (some uuid) j = some id ∧
        request_id serde msg = some id := by
    rintro j msg ⟨id, hj, hmsg⟩
    have hne : j ≠ i := by
      rintro rfl
      rw [hnone] at hj
      cases hj
    exact ⟨id, (Function.update_of_ne hne _ _).trans hj, hmsg⟩
  refine ⟨fun j => ?_, fun j => ?_, fun j msg hmsg => ?_, fun r msg hr hmsg => ?_, fun j msg hmsg => ?_,
    fun j res hres => ?_, h.answers.late⟩
  · by_cases hj : j = i
    · subst hj
      rw [Function.update_self]
      exact h.action j
    · rw [Function.update_of_ne hj]
      exact h.action j
  · by_cases hj : j = i
    · subst hj
      rw [Function.update_self]
      exact (Function.update_self j (some uuid) w.history.request_id).symm
    · rw [Function.update_of_ne hj]
      exact (h.id j).trans (Function.update_of_ne hj _ _).symm
  · by_cases hj : j = i
    · subst hj
      rw [Function.update_self] at hmsg
      exact h.answer j msg hmsg
    · rw [Function.update_of_ne hj] at hmsg
      exact h.answer j msg hmsg
  · exact hkeep r.id msg (h.reply r msg hr hmsg)
  · exact hkeep j msg (h.answers.own j msg hmsg)
  · have hreported := h.answers.reported j res hres
    by_cases hj : j = i
    · subst hj
      cases res with
      | error e => trivial
      | ok v =>
        refine ⟨hreported.1, fun hota => ?_⟩
        obtain ⟨msg_id, hsome, -⟩ := hreported.2 hota
        rw [hnone] at hsome
        cases hsome
    · change FromOwn serde _ (Function.update w.history.request_id i (some uuid) j) _ res
      rw [Function.update_of_ne hj]
      exact hreported

/-- A command takes its message. -/
theorem Inv.take {rc : Receiver} {msg : MqttMessage} (h : Inv serde requests g w)
    (hr : w.receiver = some rc) (hid : rc.id = i) (hmsg : rc.reply = some msg) :
    Inv serde requests (Function.update g i { g i with answer := some msg }) (w.take i msg) := by
  have hown : Own serde w.history i msg := hid ▸ h.reply rc msg hr hmsg
  refine ⟨fun j => ?_, fun j => ?_, fun j msg' hmsg' => ?_, nofun, fun j msg' hmsg' => ?_,
    fun j res hres => ?_, h.answers.late⟩
  · by_cases hj : j = i
    · subst hj
      rw [Function.update_self]
      exact h.action j
    · rw [Function.update_of_ne hj]
      exact h.action j
  · by_cases hj : j = i
    · subst hj
      rw [Function.update_self]
      exact h.id j
    · rw [Function.update_of_ne hj]
      exact h.id j
  · by_cases hj : j = i
    · subst hj
      rw [Function.update_self] at hmsg'
      rw [← Option.some.inj hmsg']
      exact List.mem_cons_self
    · rw [Function.update_of_ne hj] at hmsg'
      exact List.mem_cons_of_mem _ (h.answer j msg' hmsg')
  · rcases List.mem_cons.mp hmsg' with heq | hmem
    · obtain ⟨rfl, rfl⟩ := Prod.mk.inj heq
      exact hown
    · exact h.answers.own j msg' hmem
  · exact (h.answers.reported j res hres).mono fun msg' hmsg' => List.mem_cons_of_mem _ hmsg'

/-- An action is answered. -/
theorem Inv.reply_sent {res : Handled} (h : Inv serde requests g w) (hres : Handles serde (g i) res) :
    Inv serde requests (Function.update g i (g i)) { w with
      busy := none
      history := { w.history with replies := (i, res) :: w.history.replies } } := by
  rw [Function.update_eq_self]
  refine ⟨h.action, h.id, h.answer, h.reply, h.answers.own, fun j res' hres' => ?_, h.answers.late⟩
  rcases List.mem_cons.mp hres' with heq | hmem
  · obtain ⟨rfl, rfl⟩ := Prod.mk.inj heq
    have hfrom : FromOwn serde (g j).action (g j).id (fun msg => (g j).answer = some msg) res' := hres
    rw [h.action j, h.id j] at hfrom
    exact hfrom.mono fun msg hmsg => h.answer j msg hmsg
  · exact h.answers.reported j res' hmem

/-- The loop of a client gets a message. -/
theorem Inv.message {n : Nat} {msg : MqttMessage} (h : Inv serde requests g w)
    (hcond : Answering serde w (.env (.message n msg))) : Inv serde requests g (w.publish n msg) := by
  unfold World.publish
  unfold Answering at hcond
  cases hentry : (w.clients n).pending[msg.topic]? with
  | none =>
    dsimp only
    rw [hentry]
    split_ifs
    · exact ⟨h.action, h.id, h.answer, h.reply, h.answers.own, h.answers.reported, h.answers.late⟩
    · exact h
  | some i =>
    dsimp only at hcond ⊢
    rw [hentry] at hcond ⊢
    obtain ⟨hreceiver, hsome, hid⟩ := hcond
    obtain ⟨rc, hrc, rfl⟩ := Option.map_eq_some_iff.mp hreceiver
    have hdeliver : World.deliver (w.setClient n { w.clients n with
          pending := (w.clients n).pending.erase msg.topic }) rc.id msg =
        { w.setClient n { w.clients n with pending := (w.clients n).pending.erase msg.topic } with
          receiver := some { rc with reply := some msg } } := by
      unfold World.deliver
      dsimp only [World.setClient]
      rw [hrc]
      exact if_pos rfl
    dsimp only
    rw [hdeliver]
    refine ⟨h.action, h.id, h.answer, fun r msg' hr hmsg => ?_, h.answers.own, h.answers.reported,
      h.answers.late⟩
    obtain rfl := Option.some.inj hr
    obtain rfl := Option.some.inj hmsg
    obtain ⟨id, hsent⟩ := Option.isSome_iff_exists.mp hsome
    exact ⟨id, hsent, hid.trans hsent⟩

/-- One effect of an action. -/
theorem inv_act {e : Eff} {a : e.Answer} (h : Inv serde requests g w)
    (hallowed : (g i).Allowed serde e) (hw : Handle i w e a w') :
    ∃ s, (g i).Next e a s ∧ Inv serde requests (Function.update g i s) w' := by
  unfold Handle World.serve at hw
  cases e with
  | ready =>
    dsimp only at hw
    split_ifs at hw
    obtain ⟨rfl, rfl⟩ := Prod.mk.inj (Option.some.inj hw)
    exact ⟨_, rfl, h.stay rfl (.inl rfl)⟩
  | connect asked =>
    dsimp only at hw
    split at hw
    · obtain ⟨rfl, rfl⟩ := Prod.mk.inj (Option.some.inj hw)
      exact ⟨_, rfl, h.stay rfl (.inl rfl)⟩
    · obtain ⟨rfl, rfl⟩ := Prod.mk.inj (Option.some.inj hw)
      exact ⟨_, rfl, h.stay rfl (.inl rfl)⟩
  | client =>
    obtain ⟨rfl, rfl⟩ := Prod.mk.inj (Option.some.inj hw)
    exact ⟨_, rfl, h.stay rfl (.inl rfl)⟩
  | clear_client =>
    obtain ⟨rfl, rfl⟩ := Prod.mk.inj (Option.some.inj hw)
    exact ⟨_, rfl, h.stay rfl (.inl rfl)⟩
  | request r =>
    dsimp only at hw
    split at hw
    · cases hw
    · rename_i c hc
      cases hrequest : w.request c r with
      | error e =>
        rw [hrequest] at hw
        obtain ⟨rfl, rfl⟩ := Prod.mk.inj (Option.some.inj hw)
        exact ⟨_, rfl, h.stay rfl (.inr rfl)⟩
      | ok w₁ =>
        rw [hrequest] at hw
        obtain ⟨rfl, rfl⟩ := Prod.mk.inj (Option.some.inj hw)
        unfold World.request at hrequest
        dsimp only at hrequest
        split at hrequest
        · cases hrequest
        · split_ifs at hrequest
          obtain rfl := Except.ok.inj hrequest
          exact ⟨_, rfl, h.stay rfl (.inl rfl)⟩
  | set_disconnected =>
    dsimp only at hw
    split at hw
    · cases hw
    · obtain ⟨rfl, rfl⟩ := Prod.mk.inj (Option.some.inj hw)
      exact ⟨_, rfl, h.stay rfl (.inl rfl)⟩
  | new_v4 =>
    obtain ⟨rfl, rfl⟩ := Prod.mk.inj (Option.some.inj hw)
    exact ⟨_, rfl, h.new_v4 hallowed w.uuid⟩
  | insert_pending topic =>
    dsimp only at hw
    split at hw
    · cases hw
    · obtain ⟨rfl, rfl⟩ := Prod.mk.inj (Option.some.inj hw)
      refine ⟨_, rfl, ?_⟩
      rw [Function.update_eq_self]
      refine ⟨h.action, h.id, h.answer, fun r msg hr hmsg => ?_, h.answers.own, h.answers.reported,
        h.answers.late⟩
      obtain rfl := Option.some.inj hr
      cases hmsg
  | reply_rx timeout_ms =>
    dsimp only at hw
    split at hw
    · cases hw
    · rename_i rc hrc
      by_cases hid : rc.id = i
      · rw [if_pos hid] at hw
        cases hmsg : rc.reply with
        | some msg =>
          rw [hmsg] at hw
          obtain ⟨rfl, rfl⟩ := Prod.mk.inj (Option.some.inj hw)
          exact ⟨_, rfl, h.take hrc hid hmsg⟩
        | none =>
          rw [hmsg] at hw
          dsimp only at hw
          split_ifs at hw
          obtain ⟨rfl, rfl⟩ := Prod.mk.inj (Option.some.inj hw)
          exact ⟨_, rfl, h.stay rfl (.inr rfl)⟩
      · rw [if_neg hid] at hw
        cases hw
  | add_subscription topic qos =>
    obtain ⟨rfl, rfl⟩ := Prod.mk.inj (Option.some.inj hw)
    exact ⟨_, rfl, h.stay rfl (.inl rfl)⟩
  | remove_subscription topic =>
    obtain ⟨rfl, rfl⟩ := Prod.mk.inj (Option.some.inj hw)
    exact ⟨_, rfl, h.stay rfl (.inl rfl)⟩
  | count_sent =>
    obtain ⟨rfl, rfl⟩ := Prod.mk.inj (Option.some.inj hw)
    exact ⟨_, rfl, h.stay rfl (.inl rfl)⟩
  | count_received =>
    obtain ⟨rfl, rfl⟩ := Prod.mk.inj (Option.some.inj hw)
    exact ⟨_, rfl, h.stay rfl (.inl rfl)⟩
  | status =>
    obtain ⟨rfl, rfl⟩ := Prod.mk.inj (Option.some.inj hw)
    exact ⟨_, rfl, h.stay rfl (.inl rfl)⟩
  | reply result =>
    obtain ⟨rfl, rfl⟩ := Prod.mk.inj (Option.some.inj hw)
    exact ⟨_, rfl, h.reply_sent hallowed⟩

theorem inv_env {l : EnvLabel} (h : Inv serde requests g w) (hw : Env w l w')
    (hcond : Answering serde w (.env l)) : Inv serde requests g w' := by
  have hstay : ∀ w₁ : World, w₁.history = w.history → w₁.receiver = w.receiver →
      Inv serde requests g w₁ := by
    intro w₁ hhistory hreceiver
    have hstay := h.stay (i := 0) hhistory (.inl hreceiver)
    rw [Function.update_eq_self] at hstay
    exact hstay
  unfold Env World.env at hw
  cases l with
  | message n msg =>
    dsimp only at hw
    split_ifs at hw
    obtain rfl := Option.some.inj hw
    exact h.message hcond
  | lost n =>
    dsimp only at hw
    split_ifs at hw
    obtain rfl := Option.some.inj hw
    exact hstay _ rfl rfl
  | reconnected n =>
    dsimp only at hw
    split_ifs at hw
    obtain rfl := Option.some.inj hw
    exact hstay _ rfl rfl
  | turn l =>
    obtain rfl := Option.some.inj hw
    exact hstay _ rfl rfl

/-- Each command gets its own answer, and no message is consumed for a command that has ended, if a
    message comes where an entry waits only for the command that has left it, while that one waits,
    and with its id. -/
theorem commands_get_own_answers {trace : List Label} {p : Plugin}
    (hrun : Run (Where (fun p l => Answering serde p.world l) Step)
      (.start serde base64 requests) trace p) : OwnAnswers serde requests p.world := by
  have hinv : PoolInv (commandProtocol serde) (fun _ _ _ => True)
      (fun g _ w => Inv serde requests g w) trace p := by
    refine hrun.invariant ?_ fun trace p l p' hp hstep => ?_
    · refine ⟨fun i => .start (requests i).action, ?_, fun i => obeys_on_message (requests i)⟩
      exact ⟨fun i => rfl, fun i => rfl, nofun, nofun, nofun, nofun, rfl⟩
    · refine hp.step ?_ ?_ (hstep.1.where _ hstep.2)
      · intro g trace w i e a w' h hallowed hw
        exact inv_act h hallowed hw.1
      · intro g trace w l w' h hw
        exact inv_env h hw.1 hw.2
  obtain ⟨g, h, -⟩ := hinv
  exact h.answers

/-! ## Two commands -/

/-- A connection, and then commands to one device. -/
def commands : Nat → ActionRequest
  | 0 => { action := "mqtt_connect", params_json := (Json.obj [("broker_host", .str "hub")]).toVec }
  | _ =>
    { action := "mqtt_device_command"
      params_json := (Json.obj [("command", .str "read"), ("device_id", .str "esp")]).toVec }

/-- The next id, and whether the time of a command is over. -/
def now (uuid : String) (expired : Bool) : Move :=
  .env (.turn { uptime_ms := 0, refusal := none, tls_failure := none, uuid, expired })

/-- The device answers a command. -/
def deviceAnswer (id : String) : Move :=
  .env (.message 0
    { topic := "vynkor/esp/response"
      payload := (Json.obj [("request_id", .str id), ("response", .obj [])]).toVec
      qos := .AtLeastOnce })

/-- A command is answered. -/
def answeredCommand : List Move :=
  List.replicate 3 (.act 0) ++ [now "a" false] ++ List.replicate 5 (.act 1) ++ [deviceAnswer "a"] ++
    List.replicate 4 (.act 1)

theorem commands_get_own_answers_sample : ∃ res,
    runMoves commands (Answering .compact) answeredCommand = some res ∧
      res.2.world.history.answered ≠ [] ∧ OwnAnswers .compact commands res.2.world := by
  have hsome : ((runMoves commands (Answering .compact) answeredCommand).any fun res =>
      res.2.world.history.answered.length = 1) = true := by
    decide +kernel
  obtain ⟨res, hres, hlength⟩ := (Option.any_eq_true _ _).mp hsome
  refine ⟨res, hres, fun hnil => ?_, commands_get_own_answers (run_runMoves hres)⟩
  have hone := of_decide_eq_true hlength
  rw [hnil] at hone
  cases hone

/-- The first command is over when its answer comes, and a second one waits on its topic. -/
def lateAnswer : List Move :=
  List.replicate 3 (.act 0) ++ [now "a" true] ++ List.replicate 8 (.act 1) ++ [now "b" false] ++
    List.replicate 5 (.act 2) ++ [deviceAnswer "a"] ++ List.replicate 4 (.act 2)

/-- The second command gets the answer of the first one. -/
theorem late_answer_is_mistaken : ∃ trace p,
    Run Step (.start .compact noBase64 commands) trace p ∧
      ¬ OwnAnswers .compact commands p.world := by
  have hsome : ((runMoves commands (fun _ _ => True) lateAnswer).any fun res =>
      res.2.world.history.answered.any fun answer =>
        request_id .compact answer.2 ≠ res.2.world.history.request_id answer.1) = true := by
    decide +kernel
  obtain ⟨res, hres, hanswers⟩ := (Option.any_eq_true _ _).mp hsome
  obtain ⟨⟨i, msg⟩, hmem, hne⟩ := List.any_eq_true.mp hanswers
  refine ⟨res.1, res.2, (run_runMoves hres).mono fun _ _ _ hl => hl.1, fun h => ?_⟩
  obtain ⟨id, hsent, hmsg⟩ := h.own i msg hmem
  exact of_decide_eq_true hne (hmsg.trans hsent.symm)

end Mqtt
