import VynkorPlugins.Mqtt.World

/-!
# The effects of the actions

Which effects the actions have that neither wait for a device nor change a subscription.
-/

namespace Mqtt

open Async

variable {serde : Serde} {base64 : Base64} {α : Type}

/-- The effects that have to do neither with subscriptions nor with the answers of devices. -/
def Basic : Eff → Prop
  | .connect _ | .client | .clear_client | .set_disconnected | .count_sent | .count_received
  | .status => True
  | .request (.Publish ..) | .request .Disconnect => True
  | _ => False

/-- A step after whose error the action is over. -/
theorem asks_bind_error {ε β : Type} {p : Eff → Prop} {m : Act (Except ε α)}
    {f : Except ε α → Act (Except MqttError β)} (hm : Asks p m) (he : ∀ e, Asks p (f (.error e)))
    (hok : ∀ a, Asks p (f (.ok a))) : Asks p (m >>= f) := by
  refine hm.bind fun a => ?_
  cases a with
  | error e => exact he e
  | ok a => exact hok a

/-- An action that needs the client. -/
theorem asks_client {β : Type} {p : Eff → Prop} {m m' : Act (Except MqttError β)} (hp : p .client)
    (hm : Asks p m) (hm' : Asks p m') :
    Asks p (await .client >>= fun has => if has then m else m') := by
  refine .call hp fun has => ?_
  cases has with
  | true => exact hm
  | false => exact hm'

theorem asks_handle_connect (params_json : ByteArray) :
    Asks Basic (handle_connect serde params_json) := by
  unfold handle_connect
  split
  · exact .done
  · exact asks_bind_error (asks_perform trivial) (fun _ => .done) fun _ => .done

theorem asks_handle_disconnect : Asks Basic handle_disconnect := by
  refine asks_client trivial ?_ (.call trivial fun _ => .done)
  refine .call trivial fun a => ?_
  cases a with
  | error e => exact .done
  | ok _ => exact .call trivial fun _ => .call trivial fun _ => .done

theorem publishOf_eq {params : Json} {r : Request} (h : publishOf base64 params = .ok r) :
    ∃ topic qos retain payload, r = .Publish topic qos retain payload := by
  unfold publishOf at h
  cases htopic : required params "topic" with
  | error e =>
    rw [htopic] at h
    cases h
  | ok topic =>
    cases hpayload : required params "payload" with
    | error e =>
      rw [htopic, hpayload] at h
      cases h
    | ok payload_str =>
      rw [htopic, hpayload] at h
      by_cases hencoding : (text params "encoding").getD "utf8" = "base64"
      · simp only [bind, Except.bind, if_pos hencoding] at h
        cases hdecode : base64.decode payload_str with
        | error e =>
          rw [hdecode] at h
          cases h
        | ok payload =>
          rw [hdecode] at h
          exact ⟨_, _, _, _, (Except.ok.inj h).symm⟩
      · simp only [bind, Except.bind, if_neg hencoding] at h
        exact ⟨_, _, _, _, (Except.ok.inj h).symm⟩

theorem asks_handle_publish (params_json : ByteArray) :
    Asks Basic (handle_publish serde base64 params_json) := by
  unfold handle_publish
  split
  · exact .done
  · rename_i r hr
    have hpublish : Basic (.request r) := by
      cases hparams : from_slice serde params_json with
      | error e =>
        rw [hparams] at hr
        cases hr
      | ok params =>
        rw [hparams] at hr
        obtain ⟨topic, qos, retain, payload, rfl⟩ := publishOf_eq hr
        trivial
    refine asks_client trivial ?_ .done
    exact asks_bind_error (asks_perform hpublish) (fun _ => .done) fun _ => .call trivial fun _ => .done

theorem asks_handle_status : Asks Basic handle_status :=
  .call trivial fun _ => .done

end Mqtt
