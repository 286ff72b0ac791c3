import VynkorPlugins.Agent.Model

/-!
# A trace tells no secrets

The mask takes two values to one exactly when they differ under sensitive keys only, so a record of a
call depends on nothing that it is to hide.
-/

namespace Agent

variable {crates : TraceCrates}

/-! ## The mask -/

mutual

theorem mask_of_alike {v v' : Json} (h : Alike crates v v') : mask_keys crates v = mask_keys crates v' := by
  cases h with
  | null | bool | int | float | str => rfl
  | arr h =>
    unfold mask_keys
    rw [maskItems_of_alike h]
  | obj h =>
    unfold mask_keys
    rw [maskFields_of_alike h]

theorem maskItems_of_alike {vs vs' : List Json} (h : AlikeItems crates vs vs') :
    maskItems crates vs = maskItems crates vs' := by
  cases h with
  | nil => rfl
  | cons h hs =>
    unfold maskItems
    rw [mask_of_alike h, maskItems_of_alike hs]

theorem maskFields_of_alike {fs fs' : List (String × Json)} (h : AlikeFields crates fs fs') :
    maskFields crates fs = maskFields crates fs' := by
  cases h with
  | nil => rfl
  | secret v v' h hs =>
    unfold maskFields
    rw [if_pos h, if_pos h, maskFields_of_alike hs]
  | plain k h hs =>
    unfold maskFields
    rw [mask_of_alike h, maskFields_of_alike hs]

end

mutual

theorem alike_of_mask (v v' : Json) (h : mask_keys crates v = mask_keys crates v') : Alike crates v v' := by
  cases v with
  | null =>
    cases v' with
    | null => exact .null
    | _ => cases h
  | bool b =>
    cases v' with
    | bool b' =>
      obtain rfl := Json.bool.inj h
      exact .bool b
    | _ => cases h
  | int n =>
    cases v' with
    | int n' =>
      obtain rfl := Json.int.inj h
      exact .int n
    | _ => cases h
  | float x =>
    cases v' with
    | float x' =>
      obtain rfl := Json.float.inj h
      exact .float x
    | _ => cases h
  | str s =>
    cases v' with
    | str s' =>
      obtain rfl := Json.str.inj h
      exact .str s
    | _ => cases h
  | arr vs =>
    cases v' with
    | arr vs' => exact .arr (alike_of_maskItems vs vs' (Json.arr.inj h))
    | _ => cases h
  | obj fs =>
    cases v' with
    | obj fs' => exact .obj (alike_of_maskFields fs fs' (Json.obj.inj h))
    | _ => cases h

theorem alike_of_maskItems (vs vs' : List Json) (h : maskItems crates vs = maskItems crates vs') :
    AlikeItems crates vs vs' := by
  cases vs with
  | nil =>
    cases vs' with
    | nil => exact .nil
    | cons => cases h
  | cons v vs =>
    cases vs' with
    | nil => cases h
    | cons v' vs' =>
      obtain ⟨hhead, htail⟩ := List.cons.inj h
      exact .cons (alike_of_mask v v' hhead) (alike_of_maskItems vs vs' htail)

theorem alike_of_maskFields (fs fs' : List (String × Json))
    (h : maskFields crates fs = maskFields crates fs') : AlikeFields crates fs fs' := by
  cases fs with
  | nil =>
    cases fs' with
    | nil => exact .nil
    | cons => cases h
  | cons f fs =>
    cases fs' with
    | nil => cases h
    | cons f' fs' =>
      obtain ⟨k, v⟩ := f
      obtain ⟨k', v'⟩ := f'
      obtain ⟨hhead, htail⟩ := List.cons.inj h
      obtain ⟨rfl, hvalue⟩ := Prod.mk.inj hhead
      by_cases hk : is_sensitive_key crates k = true
      · exact .secret v v' hk (alike_of_maskFields fs fs' htail)
      · rw [if_neg hk, if_neg hk] at hvalue
        exact .plain k (alike_of_mask v v' hvalue) (alike_of_maskFields fs fs' htail)

end

/-- The mask takes two values to one exactly when they differ under sensitive keys only: it hides the
    values under these, at any depth, and nothing else. -/
theorem mask_hides_only_secrets (v v' : Json) :
    mask_keys crates v = mask_keys crates v' ↔ Alike crates v v' :=
  ⟨alike_of_mask v v', mask_of_alike⟩

/-! ## The records -/

variable {tool : String} {args args' : Json} {s s' : String}

theorem keys_only_of_outline (h : SameOutline args args') : keys_only args = keys_only args' := by
  have hmap : ∀ fs : List (String × Json), keys_only (.obj fs) =
      .obj ((fs.map Prod.fst).map fun k => (k, .str REDACTED)) := by
    intro fs
    rw [List.map_map]
    rfl
  have hother : ∀ v : Json, v ≠ .null ∧ (∀ fs, v ≠ .obj fs) → keys_only v = .str REDACTED := by
    intro v hv
    cases v with
    | null => exact absurd rfl hv.1
    | obj fs => exact absurd rfl (hv.2 fs)
    | _ => rfl
  cases h with
  | obj h => rw [hmap, hmap, h]
  | null => rfl
  | other hv hv' => rw [hother _ hv, hother _ hv']

theorem redact_args_congr
    (hkeys : is_sensitive_tool crates tool = true → SameOutline args args')
    (hargs : is_sensitive_tool crates tool = false → Alike crates args args') :
    redact_args crates tool args = redact_args crates tool args' := by
  unfold redact_args
  split_ifs with htool
  · rw [keys_only_of_outline (hkeys htool)]
  · rw [mask_of_alike (hargs (Bool.eq_false_of_not_eq_true htool))]

theorem redact_result_congr (h : AlikeText crates tool s s') :
    redact_result crates tool s = redact_result crates tool s' := by
  cases h with
  | same => rfl
  | hidden _ h =>
    unfold redact_result
    split_ifs with htool homit
    · rfl
    · rfl
    · exact absurd h (not_or.mpr ⟨htool, homit⟩)
  | json hs hs' h =>
    unfold redact_result mask_json_text
    rw [hs, hs']
    dsimp only
    rw [mask_of_alike h]

/-- Two calls of a tool that differ in nothing but what is to be hidden leave the same record: for a
    sensitive tool the arguments but for their keys, and all that it answers; for a tool with files or a
    shell all that it answers; and for any tool the values under sensitive keys. -/
theorem trace_tells_no_secrets {outcome outcome' : Except String String} (ms : Nat)
    (hkeys : is_sensitive_tool crates tool = true → SameOutline args args')
    (hargs : is_sensitive_tool crates tool = false → Alike crates args args')
    (houtcome : AlikeOutcome crates tool outcome outcome') :
    TraceRec.new crates tool args outcome ms = TraceRec.new crates tool args' outcome' ms := by
  have hredact := redact_args_congr hkeys hargs
  cases houtcome with
  | ok h =>
    unfold TraceRec.new
    dsimp only
    rw [hredact, redact_result_congr h]
  | error h =>
    unfold TraceRec.new redact_error
    dsimp only
    rw [hredact, redact_result_congr h]

def asciiCrates : TraceCrates where
  to_lowercase s := String.ofList (s.toList.map Char.toLower)
  from_str := Json.read
  scrub_text := id

/-- Two calls with different passwords. -/
theorem trace_tells_no_secrets_sample :
    TraceRec.new asciiCrates "mail_send" (.obj [("Password", .str "a")]) (.ok "sent") 3 =
      TraceRec.new asciiCrates "mail_send" (.obj [("Password", .int 5)]) (.ok "sent") 3 := by
  have htool : is_sensitive_tool asciiCrates "mail_send" = false := by decide
  have hkey : is_sensitive_key asciiCrates "Password" = true := by decide
  refine trace_tells_no_secrets 3 (fun h => ?_) (fun _ => .obj (.secret _ _ hkey .nil)) (.ok (.same _))
  rw [htool] at h
  cases h

end Agent
