import Mathlib
import VynkorPlugins.Base.Table

/-!
# Patterns of LIKE

How patterns are put together, and what they cover then.
-/

/-- Those keys of a table are listed, if the others are not selected. -/
theorem Table.listing_iff {ρ : Type} (t : Table String ρ) (p : String → Bool) (pre : String) :
    Listing (· ∈ t) pre ((t.selectWhere fun name _ => p name).map Prod.fst) ↔
      ∀ name ∈ t, p name ↔ pre.toList <+: name.toList := by
  have hmem : ∀ name, name ∈ (t.selectWhere fun name _ => p name).map Prod.fst ↔
      name ∈ t ∧ p name := by
    intro name
    rw [Std.ExtTreeMap.mem_iff_isSome_getElem?, Option.isSome_iff_exists]
    simp [mem_selectWhere]
  constructor
  · intro h name hname
    have hiff := h.mem name
    rw [hmem] at hiff
    exact ⟨fun hp => (hiff.mp ⟨hname, hp⟩).2, fun hpre => (hiff.mpr ⟨hname, hpre⟩).2⟩
  · intro h
    refine ⟨?_, fun name => ?_⟩
    · rw [List.pairwise_map]
      refine (t.ordered_keys_toList.filter _).imp fun {a b} hab => ?_
      exact compare_lt_iff_lt.mp hab
    · rw [hmem]
      exact and_congr_right (h name)

namespace Like

variable {esc : Char} {cs ds s : List Char} {ts us : List Token}

/-! ## Tokens -/

theorem tokens_cons {c : Char} (h : c ≠ esc) : tokens esc (c :: cs) = (tokens esc cs).map (.of c :: ·) := by
  cases cs with
  | nil => exact if_neg h
  | cons d cs => exact if_neg h

theorem tokens_escaped (c : Char) : tokens esc (esc :: c :: cs) = (tokens esc cs).map (.lit c :: ·) :=
  if_pos rfl

/-- Nothing follows the escape character. -/
theorem tokens_escape : tokens esc [esc] = none :=
  if_pos rfl

/-- A pattern goes on after what has been read. -/
theorem tokens_append (h : tokens esc cs = some ts) :
    tokens esc (cs ++ ds) = (tokens esc ds).map (ts ++ ·) := by
  induction cs using tokens.induct esc generalizing ts with
  | case1 =>
    obtain rfl := Option.some.inj h
    simp
  | case2 =>
    rw [tokens_escape] at h
    cases h
  | case3 c hc =>
    rw [tokens_cons hc] at h
    obtain rfl := Option.some.inj h
    exact tokens_cons hc
  | case4 d cs ih =>
    rw [tokens_escaped] at h
    obtain ⟨ts', hts, rfl⟩ := Option.map_eq_some_iff.mp h
    rw [List.cons_append, List.cons_append, tokens_escaped, ih hts, Option.map_map]
    rfl
  | case5 c d cs hc ih =>
    rw [tokens_cons hc] at h
    obtain ⟨ts', hts, rfl⟩ := Option.map_eq_some_iff.mp h
    rw [List.cons_append, tokens_cons hc, ih hts, Option.map_map]
    rfl

/-- An escape character that nothing follows is the last character. -/
theorem exists_of_tokens_eq_none (h : tokens esc cs = none) :
    ∃ p ts, cs = p ++ [esc] ∧ tokens esc p = some ts := by
  induction cs using tokens.induct esc with
  | case1 => cases h
  | case2 => exact ⟨[], [], rfl, rfl⟩
  | case3 c hc =>
    rw [tokens_cons hc] at h
    cases h
  | case4 d cs ih =>
    rw [tokens_escaped, Option.map_eq_none_iff] at h
    obtain ⟨p, ts, rfl, hts⟩ := ih h
    refine ⟨esc :: d :: p, .lit d :: ts, rfl, ?_⟩
    rw [tokens_escaped, hts]
    rfl
  | case5 c d cs hc ih =>
    rw [tokens_cons hc, Option.map_eq_none_iff] at h
    obtain ⟨p, ts, hp, hts⟩ := ih h
    refine ⟨c :: p, .of c :: ts, by rw [hp, List.cons_append], ?_⟩
    rw [tokens_cons hc, hts]
    rfl

/-- The character after an escape character that nothing followed stands for itself. -/
theorem tokens_append_escape (h : tokens esc cs = some ts) (c : Char) :
    tokens esc (cs ++ [esc] ++ c :: ds) = (tokens esc ds).map (ts ++ .lit c :: ·) := by
  rw [List.append_assoc, tokens_append h, List.singleton_append, tokens_escaped, Option.map_map]
  rfl

/-! ## Texts -/

@[simp] theorem covers_nil : covers [] s = s.isEmpty := rfl

theorem covers_any_cons : covers (.any :: ts) s = s.tails.any (covers ts) := rfl

@[simp] theorem covers_one_nil : covers (.one :: ts) [] = false := rfl

theorem covers_one_cons {c : Char} : covers (.one :: ts) (c :: s) = covers ts s := rfl

@[simp] theorem covers_lit_nil {c : Char} : covers (.lit c :: ts) [] = false := rfl

theorem covers_lit_cons {c d : Char} : covers (.lit c :: ts) (d :: s) = (same c d && covers ts s) := rfl

@[simp] theorem covers_any : covers [Token.any] s = true := by
  simp [covers_any_cons]

theorem covers_append :
    covers (ts ++ us) s = true ↔ ∃ a b, s = a ++ b ∧ covers ts a = true ∧ covers us b = true := by
  induction ts generalizing s with
  | nil => simp
  | cons t ts ih =>
    cases t with
    | any =>
      simp only [List.cons_append, covers_any_cons, List.any_eq_true, List.mem_tails, ih]
      constructor
      · rintro ⟨-, ⟨p, rfl⟩, a, b, rfl, ha, hb⟩
        exact ⟨p ++ a, b, (List.append_assoc ..).symm, ⟨a, ⟨p, rfl⟩, ha⟩, hb⟩
      · rintro ⟨-, b, rfl, ⟨a, ⟨p, rfl⟩, ha⟩, hb⟩
        exact ⟨a ++ b, ⟨p, (List.append_assoc ..).symm⟩, a, b, rfl, ha, hb⟩
    | one =>
      cases s with
      | nil => simp
      | cons d s =>
        simp only [List.cons_append, covers_one_cons, ih]
        constructor
        · rintro ⟨a, b, rfl, ha, hb⟩
          exact ⟨d :: a, b, rfl, ha, hb⟩
        · rintro ⟨_ | ⟨e, a⟩, b, hs, ha, hb⟩
          · cases ha
          · obtain ⟨-, rfl⟩ := List.cons.inj hs
            exact ⟨a, b, rfl, ha, hb⟩
    | lit c =>
      cases s with
      | nil => simp
      | cons d s =>
        simp only [List.cons_append, covers_lit_cons, Bool.and_eq_true, ih]
        constructor
        · rintro ⟨hcd, a, b, rfl, ha, hb⟩
          exact ⟨d :: a, b, rfl, by rw [covers_lit_cons, hcd, ha]; rfl, hb⟩
        · rintro ⟨_ | ⟨e, a⟩, b, hs, ha, hb⟩
          · cases ha
          · obtain ⟨rfl, rfl⟩ := List.cons.inj hs
            rw [covers_lit_cons, Bool.and_eq_true] at ha
            exact ⟨ha.1, a, b, rfl, ha.2, hb⟩

/-- A character that is no letter has no other case. -/
theorem same_iff_eq {c d : Char} (h : c.isAlpha = false) : same c d = true ↔ c = d := by
  rw [same, decide_eq_true_iff]
  have hnot : ∀ c : Char, c.isAlpha = false → c.toLower = c := fun c hc =>
    Char.toLower_eq_of_not_isUpper fun hupper => by simp [Char.isAlpha, hupper] at hc
  constructor
  · intro hcd
    rw [hnot c h] at hcd
    have hd : d.isAlpha = false := by
      rw [← Char.isAlpha_toLower_eq_isAlpha, ← hcd, h]
    rw [hcd, hnot d hd]
  · rintro rfl
    rfl

theorem covers_singleton {c : Char} (h : c.isAlpha = false) : covers [.lit c] s = true ↔ s = [c] := by
  rcases s with _ | ⟨d, _ | ⟨e, s⟩⟩
  · simp
  · simp [covers_lit_cons, same_iff_eq h, eq_comm]
  · simp [covers_lit_cons]

/-- A text without escape characters is like itself. -/
theorem like_self (h : esc ∉ cs) : like esc cs cs = true := by
  have htokens : tokens esc cs = some (cs.map .of) := by
    induction cs with
    | nil => rfl
    | cons c cs ih =>
      rw [List.mem_cons, not_or] at h
      rw [tokens_cons (Ne.symm h.1), ih h.2]
      rfl
  rw [like, htokens, Option.any_some]
  clear h htokens
  induction cs with
  | nil => rfl
  | cons c cs ih =>
    rw [List.map_cons, Token.of]
    split_ifs
    · simp only [covers_any_cons, List.any_eq_true, List.mem_tails]
      exact ⟨cs, List.suffix_cons c cs, ih⟩
    · exact ih
    · simp [covers_lit_cons, same, ih]

/-- Literal places stand for one text, up to the case of its letters. -/
theorem covers_lits : covers (cs.map .lit) s = true ↔ cs.map Char.toLower = s.map Char.toLower := by
  induction cs generalizing s with
  | nil => cases s <;> simp
  | cons c cs ih =>
    cases s with
    | nil => simp
    | cons d s => simp [covers_lit_cons, same, ih]

/-- A pattern that ends in `%` covers what begins with a text that it covers without. -/
theorem covers_append_any :
    covers (ts ++ [Token.any]) s = true ↔ ∃ kept, kept <+: s ∧ covers ts kept = true := by
  rw [covers_append]
  constructor
  · rintro ⟨a, b, rfl, ha, -⟩
    exact ⟨a, List.prefix_append a b, ha⟩
  · rintro ⟨kept, ⟨b, rfl⟩, hkept⟩
    exact ⟨kept, b, rfl, hkept, covers_any⟩

end Like
