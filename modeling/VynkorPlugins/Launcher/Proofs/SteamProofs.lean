import VynkorPlugins.Launcher.Steam

/-!
# What is read of a manifest

When the two slices of a text are cut between characters, and when they are the app id and the name.
-/

namespace Launcher

open String (utf8Len)

variable {key k s t u text rest gap pre : List Char} {c : Char} {i : Nat} {m : Manifest}

/-! ## Scanning -/

/-- The text has no quote that is not escaped: whether its end is escaped. -/
def unquoted : Bool → List Char → Option Bool
  | esc, [] => some esc
  | esc, c :: cs => if c = '"' ∧ esc = false then none else unquoted (c = '\\' && !esc) cs

/-- The first quoted text. -/
structure Quoted (text pre u rest : List Char) : Prop where
  text_eq : text = pre ++ '"' :: (u ++ '"' :: rest)
  pre : unquoted false pre = some false
  body : unquoted false u = some false

/-- Some of the first characters take that many bytes. -/
def Boundary (text : List Char) (n : Nat) : Prop := ∃ a b, text = a ++ b ∧ utf8Len a = n

/-- Where the first quoted text begins and ends, the characters before are as many as bytes before some
character. -/
def CutsWell (text : List Char) : Prop :=
  ∀ pre u rest, Quoted text pre u rest →
    Boundary text (pre.length + 1) ∧ Boundary text (pre.length + 1 + u.length)

theorem scan_pass {esc : Bool} {start : Option Nat} (h : ¬ (c = '"' ∧ esc = false)) (s : List Char) :
    scan i start esc (c :: s) = scan (i + 1) start (c = '\\' && !esc) s := by
  rw [scan.eq_def]
  dsimp only
  rw [if_neg h]

theorem scan_open (i : Nat) (s : List Char) :
    scan i none false ('"' :: s) = scan (i + 1) (some (i + 1)) false s := rfl

theorem scan_close (i n : Nat) (s : List Char) : scan i (some n) false ('"' :: s) = (some n, some i) := rfl

theorem scan_unquoted {esc esc' : Bool} {start : Option Nat} (h : unquoted esc u = some esc') :
    scan i start esc (u ++ t) = scan (i + u.length) start esc' t := by
  induction u generalizing i esc with
  | nil =>
    obtain rfl := Option.some.inj h
    rfl
  | cons c u ih =>
    rw [unquoted] at h
    split_ifs at h with hc
    rw [List.cons_append, scan_pass hc, ih h, List.length_cons]
    congr 1
    omega

theorem Quoted.scan (h : Quoted text pre u rest) :
    scan 0 none false text = (some (pre.length + 1), some (pre.length + 1 + u.length)) := by
  obtain ⟨rfl, hpre, hbody⟩ := h
  rw [scan_unquoted hpre, scan_open, scan_unquoted hbody, scan_close, Nat.zero_add]

/-- Up to an unescaped quote, if there is one. -/
theorem unquoted_or_quote (esc : Bool) (text : List Char) :
    (∃ esc', unquoted esc text = some esc') ∨
      ∃ u rest, text = u ++ '"' :: rest ∧ unquoted esc u = some false := by
  induction text generalizing esc with
  | nil => exact .inl ⟨esc, rfl⟩
  | cons c text ih =>
    by_cases hc : c = '"' ∧ esc = false
    · obtain ⟨rfl, rfl⟩ := hc
      exact .inr ⟨[], text, rfl, rfl⟩
    · rcases ih (c = '\\' && !esc) with ⟨esc', h⟩ | ⟨u, rest, rfl, h⟩
      · left
        refine ⟨esc', ?_⟩
        rw [unquoted, if_neg hc, h]
      · right
        refine ⟨c :: u, rest, rfl, ?_⟩
        rw [unquoted, if_neg hc, h]

theorem scan_end {esc esc' : Bool} {start : Option Nat} (h : unquoted esc u = some esc') :
    scan i start esc u = (start, none) := by
  have hscan : scan i start esc (u ++ []) = _ := scan_unquoted h
  rw [List.append_nil] at hscan
  rw [hscan]
  rfl

/-- A text has a first quoted text, or its scan finds none. -/
theorem quoted_or_none (text : List Char) :
    (∃ pre u rest, Quoted text pre u rest) ∨
      ∃ start, scan 0 none false text = (start, none) := by
  rcases unquoted_or_quote false text with ⟨esc, h⟩ | ⟨pre, rest, rfl, hpre⟩
  · exact .inr ⟨none, scan_end h⟩
  · rcases unquoted_or_quote false rest with ⟨esc, h⟩ | ⟨u, rest, rfl, hbody⟩
    · right
      refine ⟨some (0 + pre.length + 1), ?_⟩
      rw [scan_unquoted hpre, scan_open]
      exact scan_end h
    · exact .inl ⟨pre, u, rest, rfl, hpre, hbody⟩

/-! ## Slices -/

theorem slice_eq_some {start n : Nat} {cut : List Char} :
    Rust.slice text start (start + n) = some cut ↔
      ∃ a b, text = a ++ (cut ++ b) ∧ utf8Len a = start ∧ utf8Len cut = n := by
  unfold Rust.slice
  rw [if_neg (by omega), Nat.add_sub_cancel_left]
  constructor
  · intro h
    obtain ⟨⟨a, rest⟩, ha, h⟩ := Option.bind_eq_some_iff.mp h
    obtain ⟨⟨cut', b⟩, hcut, h⟩ := Option.bind_eq_some_iff.mp h
    obtain rfl := Option.some.inj h
    obtain ⟨rfl, hstart⟩ := Rust.splitBytes_eq_some.mp ha
    obtain ⟨rfl, hlen⟩ := Rust.splitBytes_eq_some.mp hcut
    exact ⟨a, b, rfl, hstart, hlen⟩
  · rintro ⟨a, b, rfl, hstart, hlen⟩
    have ha := Rust.splitBytes_eq_some.mpr (show a ++ (cut ++ b) = a ++ (cut ++ b) ∧ _ from ⟨rfl, hstart⟩)
    have hcut := Rust.splitBytes_eq_some.mpr (show cut ++ b = cut ++ b ∧ _ from ⟨rfl, hlen⟩)
    show ((Rust.splitBytes start (a ++ (cut ++ b))).bind _) = _
    rw [ha]
    show ((Rust.splitBytes n (cut ++ b)).bind _) = _
    rw [hcut]
    rfl

theorem slice_isSome_iff (start n : Nat) :
    (∃ cut, Rust.slice text start (start + n) = some cut) ↔
      Boundary text start ∧ Boundary text (start + n) := by
  constructor
  · rintro ⟨cut, h⟩
    obtain ⟨a, b, rfl, hstart, hlen⟩ := slice_eq_some.mp h
    refine ⟨⟨a, cut ++ b, rfl, hstart⟩, a ++ cut, b, (List.append_assoc a cut b).symm, ?_⟩
    rw [String.utf8Len_append, hstart, hlen]
  · rintro ⟨⟨a, b, rfl, rfl⟩, a', b', heq, hlen⟩
    rcases List.append_eq_append_iff.mp heq with ⟨cut, rfl, rfl⟩ | ⟨back, rfl, rfl⟩
    · refine ⟨cut, slice_eq_some.mpr ⟨a, b', rfl, rfl, ?_⟩⟩
      rw [String.utf8Len_append] at hlen
      omega
    · rw [String.utf8Len_append] at hlen ⊢
      have hnil : utf8Len back = 0 ∧ n = 0 := by omega
      refine ⟨[], slice_eq_some.mpr ⟨a' ++ back, b, rfl, ?_, hnil.2.symm⟩⟩
      rw [String.utf8Len_append]

theorem extract_of_after (h : after key s = some text) (hq : Quoted text pre u rest) :
    extract_quoted_value s key =
      match Rust.slice text (pre.length + 1) (pre.length + 1 + u.length) with
      | some val => .ok (some val)
      | none => .error .boundary := by
  unfold extract_quoted_value
  cases hslice : Rust.slice text (pre.length + 1) (pre.length + 1 + u.length) with
  | none => simp only [h, hq.scan, hslice]
  | some val => simp only [h, hq.scan, hslice]

theorem extract_ok_iff :
    (∃ o, extract_quoted_value s key = .ok o) ↔ ∀ text, after key s = some text → CutsWell text := by
  cases hafter : after key s with
  | none =>
    refine ⟨fun _ text h => (nomatch h), fun _ => ⟨none, ?_⟩⟩
    unfold extract_quoted_value
    rw [hafter]
  | some text =>
    rcases quoted_or_none text with ⟨pre, u, rest, hq⟩ | ⟨start, hscan⟩
    · rw [extract_of_after hafter hq]
      have hslice := @slice_isSome_iff text (pre.length + 1) u.length
      constructor
      · rintro ⟨o, h⟩ text' htext'
        obtain rfl := Option.some.inj htext'
        intro pre' u' rest' hq'
        have hsame := hq'.scan.symm.trans hq.scan
        rw [Prod.mk.injEq, Option.some.injEq, Option.some.injEq] at hsame
        rw [hsame.1, show u'.length = u.length by omega, ← hslice]
        cases hcut : Rust.slice text (pre.length + 1) (pre.length + 1 + u.length) with
        | none =>
          rw [hcut] at h
          cases h
        | some cut => exact ⟨cut, rfl⟩
      · intro h
        obtain ⟨cut, hcut⟩ := hslice.mpr (h text rfl pre u rest hq)
        rw [hcut]
        exact ⟨some cut, rfl⟩
    · constructor
      · rintro - text' htext' pre u rest hq
        obtain rfl := Option.some.inj htext'
        rw [hq.scan] at hscan
        cases hscan
      · rintro -
        refine ⟨none, ?_⟩
        unfold extract_quoted_value
        rw [hafter]
        dsimp only
        rw [hscan]
        cases start <;> rfl

/-- The value after the first occurrence of a key is cut between characters. -/
def Readable (content key : List Char) : Prop := ∀ text, after key content = some text → CutsWell text

/-- A quoted text follows the first occurrence of a key. -/
def Present (content key : List Char) : Prop :=
  ∃ text pre u rest, after key content = some text ∧ Quoted text pre u rest

theorem present_of_extract {o : Option (List Char)} (h : extract_quoted_value s key = .ok o) :
    o.isSome = true ↔ Present s key := by
  cases hafter : after key s with
  | none =>
    unfold extract_quoted_value at h
    rw [hafter] at h
    obtain rfl := Except.ok.inj h
    constructor
    · exact fun h => (nomatch h)
    · rintro ⟨text, pre, u, rest, htext, -⟩
      rw [hafter] at htext
      cases htext
  | some text =>
    rcases quoted_or_none text with ⟨pre, u, rest, hq⟩ | ⟨start, hscan⟩
    · rw [extract_of_after hafter hq] at h
      cases hcut : Rust.slice text (pre.length + 1) (pre.length + 1 + u.length) with
      | none =>
        rw [hcut] at h
        cases h
      | some cut =>
        rw [hcut] at h
        obtain rfl := Except.ok.inj h
        exact ⟨fun _ => ⟨text, pre, u, rest, hafter, hq⟩, fun _ => rfl⟩
    · have hnone : o = none := by
        unfold extract_quoted_value at h
        rw [hafter] at h
        dsimp only at h
        rw [hscan] at h
        cases start with
        | none => exact (Except.ok.inj h).symm
        | some n => exact (Except.ok.inj h).symm
      subst hnone
      constructor
      · exact fun h => (nomatch h)
      · rintro ⟨text', pre, u, rest, htext, hq⟩
        rw [hafter] at htext
        obtain rfl := Option.some.inj htext
        rw [hq.scan] at hscan
        cases hscan

def appidKey : List Char := "\"appid\"".toList

def nameKey : List Char := "\"name\"".toList

/-- The parser does not panic just when the values it slices are cut between characters. -/
theorem parse_ok_iff (content : List Char) (path : String) :
    (∃ r, parse_appmanifest_content content path = .ok r) ↔
      Readable content appidKey ∧ (Present content appidKey → Readable content nameKey) := by
  unfold Readable
  rw [← extract_ok_iff, ← extract_ok_iff]
  constructor
  · rintro ⟨r, h⟩
    obtain ⟨o, happid, h⟩ := Rust.bind_eq_ok.mp h
    refine ⟨⟨o, happid⟩, fun hpresent => ?_⟩
    obtain ⟨appid, rfl⟩ := Option.isSome_iff_exists.mp ((present_of_extract happid).mpr hpresent)
    obtain ⟨name, hname, -⟩ := Rust.bind_eq_ok.mp h
    exact ⟨name, hname⟩
  · rintro ⟨⟨o, happid⟩, hname⟩
    show ∃ r, (extract_quoted_value content appidKey >>= _) = .ok r
    rw [happid]
    cases o with
    | none => exact ⟨_, rfl⟩
    | some appid =>
      obtain ⟨name, hname⟩ := hname ((present_of_extract happid).mp rfl)
      show ∃ r, (extract_quoted_value content nameKey >>= _) = .ok r
      rw [hname]
      by_cases hbad : Rust.trim (String.ofList appid) = "" ∨ appid.all Char.isDigit = false
      · exact ⟨_, if_pos hbad⟩
      · exact ⟨_, if_neg hbad⟩

/-! ## Manifests -/

/-- The text is `k`, or ends with a quote and `k`. -/
def ends (k t : List Char) : Bool := t = k || ('"' :: k).isSuffixOf t

/-- The text after the first one that is or ends with a key. -/
def follower (k : List Char) : List (List Char) → Option (List Char)
  | [] => none
  | t :: ts => if ends k t then ts.head? else follower k ts

/-- A key is letters, here. -/
def Key (k : List Char) : Prop := k ≠ [] ∧ ∀ c ∈ k, c.isAlpha = true

theorem Key.head (h : Key k) : ∃ c k', k = c :: k' ∧ c.isAlpha = true := by
  obtain ⟨c, k', rfl⟩ := List.exists_cons_of_ne_nil h.1
  exact ⟨c, k', rfl, h.2 c List.mem_cons_self⟩

theorem escaped_cons (c : Char) (s : List Char) :
    escaped (c :: s) = (if c = '"' ∨ c = '\\' then ['\\', c] else [c]) ++ escaped s := rfl

theorem escaped_plain (h : ∀ c ∈ s, c ≠ '"' ∧ c ≠ '\\') : escaped s = s := by
  induction s with
  | nil => rfl
  | cons c s ih =>
    have hc : ¬ (c = '"' ∨ c = '\\') := not_or.mpr (h c List.mem_cons_self)
    rw [escaped_cons, if_neg hc, ih fun d hd => h d (List.mem_cons_of_mem c hd)]
    rfl

theorem Key.plain (h : ∀ c ∈ k, c.isAlpha = true) : ∀ c ∈ k, c ≠ '"' ∧ c ≠ '\\' := by
  intro c hc
  have halpha := h c hc
  constructor
  · rintro rfl
    cases halpha
  · rintro rfl
    cases halpha

/-- Where a quoted text begins, a quoted key begins only if the text is the key. -/
theorem key_quote_prefix_iff (h : ∀ c ∈ k, c.isAlpha = true) :
    k ++ ['"'] <+: escaped t ++ '"' :: rest ↔ t = k := by
  induction k generalizing t with
  | nil =>
    cases t with
    | nil => simp [escaped]
    | cons c t =>
      rw [escaped_cons]
      split_ifs with hc
      · simp
      · rw [not_or] at hc
        simp [Ne.symm hc.1]
  | cons d k ih =>
    have hd := (Key.plain h) d List.mem_cons_self
    have hk := ih (t := t.tail) fun c hc => h c (List.mem_cons_of_mem d hc)
    cases t with
    | nil => simp [escaped, hd.1]
    | cons c t =>
      rw [escaped_cons]
      split_ifs with hc
      · have hne : c ≠ d := by
          rintro rfl
          rcases hc with rfl | rfl
          · exact hd.1 rfl
          · exact hd.2 rfl
        simp [hd.2, hne]
      · rw [List.tail_cons] at hk
        rw [List.cons_append, List.append_assoc, List.singleton_append, List.cons_prefix_cons, hk,
          List.cons.injEq, eq_comm]

theorem after_pass (h : ¬ key <+: c :: s) : after key (c :: s) = after key s := by
  rw [after, if_neg (by rwa [List.isPrefixOf_iff_prefix])]

theorem after_found (hne : key ≠ []) (h : s = key ++ rest) : after key s = some rest := by
  subst h
  obtain ⟨c, key, rfl⟩ := List.exists_cons_of_ne_nil hne
  rw [List.cons_append, after, if_pos (by rw [List.isPrefixOf_iff_prefix]; exact List.prefix_append _ _),
    ← List.cons_append, List.drop_left]

/-- A key between quotes. -/
def keyText (k : List Char) : List Char := '"' :: (k ++ ['"'])

theorem keyText_prefix_cons : keyText k <+: c :: s ↔ c = '"' ∧ k ++ ['"'] <+: s := by
  unfold keyText
  rw [List.cons_prefix_cons, eq_comm]

theorem after_other (h : c ≠ '"') (s : List Char) : after (keyText k) (c :: s) = after (keyText k) s := by
  refine after_pass ?_
  rw [keyText_prefix_cons]
  exact fun hin => h hin.1

/-- Nothing before a quote is a quoted key. -/
theorem after_gap (h : '"' ∉ gap) (s : List Char) :
    after (keyText k) (gap ++ s) = after (keyText k) s := by
  induction gap with
  | nil => rfl
  | cons c gap ih =>
    rw [List.mem_cons, not_or] at h
    rw [List.cons_append, after_other (Ne.symm h.1), ih h.2]

theorem after_none (h : '"' ∉ gap) : after (keyText k) gap = none := by
  have hgap := after_gap (k := k) h []
  rw [List.append_nil] at hgap
  rw [hgap]
  rfl

/-- What follows a quoted text does not begin with a key. -/
def Apart (k rest : List Char) : Prop := ∀ c ∈ rest.head?, c ∉ k.head?

theorem after_key (hk : Key k) (rest : List Char) :
    after (keyText k) ('"' :: (escaped k ++ '"' :: rest)) = some rest := by
  refine after_found (by simp [keyText]) ?_
  rw [escaped_plain (Key.plain hk.2)]
  simp [keyText]

theorem after_not_key (hk : Key k) (ht : t ≠ k) (rest : List Char) :
    after (keyText k) ('"' :: (escaped t ++ '"' :: rest)) =
      after (keyText k) (escaped t ++ '"' :: rest) := by
  refine after_pass ?_
  rw [keyText_prefix_cons, key_quote_prefix_iff hk.2]
  exact fun h => ht h.2

/-- In a quoted text, a quoted key begins at a quote with the key up to the end. -/
theorem after_escaped (hk : Key k) (hrest : Apart k rest) (t : List Char) :
    after (keyText k) (escaped t ++ '"' :: rest) =
      if ('"' :: k).isSuffixOf t then some rest else after (keyText k) rest := by
  have hends : ∀ (c : Char) (t : List Char), ('"' :: k) <:+ c :: t ↔ (c = '"' ∧ t = k) ∨ ('"' :: k) <:+ t := by
    intro c t
    rw [List.suffix_cons_iff, List.cons.injEq]
    constructor
    · rintro (⟨rfl, rfl⟩ | h)
      · exact .inl ⟨rfl, rfl⟩
      · exact .inr h
    · rintro (⟨rfl, rfl⟩ | h)
      · exact .inl ⟨rfl, rfl⟩
      · exact .inr h
  induction t with
  | nil =>
    obtain ⟨c, k', rfl, -⟩ := hk.head
    rw [if_neg (by simp)]
    refine after_pass ?_
    rw [keyText_prefix_cons]
    rintro ⟨-, more, rfl⟩
    exact hrest c rfl rfl
  | cons c t ih =>
    rw [escaped_cons, List.append_assoc]
    by_cases hquote : c = '"'
    · subst hquote
      show after _ ('\\' :: '"' :: (escaped t ++ '"' :: rest)) = _
      rw [after_other (by decide)]
      by_cases ht : t = k
      · subst ht
        rw [after_key hk, if_pos (List.isSuffixOf_iff_suffix.mpr List.suffix_rfl)]
      · rw [after_not_key hk ht, ih]
        simp only [List.isSuffixOf_iff_suffix, hends, ht, and_false, false_or]
    · have hsuffix : ('"' :: k).isSuffixOf (c :: t) = ('"' :: k).isSuffixOf t := by
        rw [Bool.eq_iff_iff, List.isSuffixOf_iff_suffix, List.isSuffixOf_iff_suffix, hends]
        simp [hquote]
      rw [hsuffix, ← ih]
      split_ifs with hc
      · obtain rfl := hc.resolve_left hquote
        show after _ ('\\' :: '\\' :: (escaped t ++ '"' :: rest)) = _
        rw [after_other hquote, after_other hquote]
      · exact after_other hquote _

/-- A quoted text is passed by unless it is or ends with the key. -/
theorem after_quoted (hk : Key k) (hrest : Apart k rest) (t : List Char) :
    after (keyText k) (quoted t ++ rest) = if ends k t then some rest else after (keyText k) rest := by
  have hquoted : quoted t ++ rest = '"' :: (escaped t ++ '"' :: rest) := by simp [quoted]
  rw [hquoted]
  by_cases ht : t = k
  · subst ht
    rw [after_key hk, if_pos (by simp [ends])]
  · rw [after_not_key hk ht, after_escaped hk hrest]
    simp [ends, ht]

/-! ## Texts with gaps -/

/-- Texts between quotes, each after a gap. -/
def tokensText (ts : List (List Char × List Char)) : List Char := ts.flatMap fun t => t.1 ++ quoted t.2

def Gaps (ts : List (List Char × List Char)) : Prop := ∀ t ∈ ts, Blank t.1

/-- The tokens after the first one that is or ends with a key. -/
def behind (k : List Char) : List (List Char × List Char) → Option (List (List Char × List Char))
  | [] => none
  | t :: ts => if ends k t.2 then some ts else behind k ts

variable {ts : List (List Char × List Char)} {tail : List Char}

theorem follower_eq (k : List Char) (ts : List (List Char × List Char)) :
    follower k (ts.map Prod.snd) = (behind k ts).bind fun ts => ts.head?.map Prod.snd := by
  induction ts with
  | nil => rfl
  | cons t ts ih =>
    rw [List.map_cons, follower, behind]
    split_ifs
    · rw [List.head?_map]
      rfl
    · exact ih

theorem Blank.plain (h : Blank gap) : ∀ c ∈ gap, c ≠ '"' ∧ c ≠ '\\' ∧ c.isAlpha = false ∧ c.utf8Size = 1 := by
  have hall : ∀ c ∈ [' ', '\t', '\n', '\r'],
      c ≠ '"' ∧ c ≠ '\\' ∧ c.isAlpha = false ∧ c.utf8Size = 1 := by simp [Char.utf8Size]
  exact fun c hc => hall c (h c hc)

/-- The text begins with no letter. -/
def Bare (rest : List Char) : Prop := ∀ c ∈ rest.head?, c.isAlpha = false

theorem Bare.apart (h : Bare rest) (hk : Key k) : Apart k rest := by
  intro c hc hin
  have hbare := h c hc
  have halpha := hk.2 c (List.mem_of_head? hin)
  rw [hbare] at halpha
  cases halpha

theorem Bare.blank_append (hgap : Blank gap) (h : Bare rest) : Bare (gap ++ rest) := by
  cases gap with
  | nil => exact h
  | cons c gap =>
    intro d hd
    obtain rfl := Option.some.inj hd
    exact (hgap.plain c List.mem_cons_self).2.2.1

theorem bare_tokens (hgaps : Gaps ts) (htail : Bare tail) : Bare (tokensText ts ++ tail) := by
  cases ts with
  | nil => exact htail
  | cons t ts =>
    have hquote : Bare (quoted t.2 ++ (tokensText ts ++ tail)) := by
      intro c hc
      obtain rfl := Option.some.inj hc
      rfl
    have hbare := hquote.blank_append (hgaps t List.mem_cons_self)
    unfold tokensText at hbare ⊢
    rw [List.flatMap_cons, List.append_assoc, List.append_assoc]
    exact hbare

theorem after_tokens (hk : Key k) (hgaps : Gaps ts) (htail : Bare tail) (hquote : '"' ∉ tail) :
    after (keyText k) (tokensText ts ++ tail) = (behind k ts).map fun ts => tokensText ts ++ tail := by
  induction ts with
  | nil => exact after_none hquote
  | cons t ts ih =>
    have hrest : Gaps ts := fun t' ht' => hgaps t' (List.mem_cons_of_mem t ht')
    have hgap : '"' ∉ t.1 := fun hin => ((hgaps t List.mem_cons_self).plain _ hin).1 rfl
    have hcons : tokensText (t :: ts) ++ tail = t.1 ++ (quoted t.2 ++ (tokensText ts ++ tail)) := by
      simp [tokensText]
    rw [hcons, after_gap hgap, after_quoted hk ((bare_tokens hrest htail).apart hk), behind]
    split_ifs
    · rfl
    · exact ih hrest

theorem unquoted_gap (h : Blank gap) : unquoted false gap = some false := by
  induction gap with
  | nil => rfl
  | cons c gap ih =>
    have hc := h.plain c List.mem_cons_self
    rw [unquoted, if_neg fun hand => hc.1 hand.1, decide_eq_false hc.2.1]
    exact ih fun d hd => h d (List.mem_cons_of_mem c hd)

theorem unquoted_escaped (t : List Char) : unquoted false (escaped t) = some false := by
  induction t with
  | nil => rfl
  | cons c t ih =>
    rw [escaped_cons]
    split_ifs with hc
    · rcases hc with rfl | rfl
      · exact ih
      · exact ih
    · rw [not_or] at hc
      rw [List.singleton_append, unquoted, if_neg fun hand => hc.1 hand.1, decide_eq_false hc.2]
      exact ih

theorem quoted_token (hgap : Blank gap) (t rest : List Char) :
    Quoted (gap ++ (quoted t ++ rest)) gap (escaped t) rest := by
  refine ⟨?_, unquoted_gap hgap, unquoted_escaped t⟩
  simp [quoted]

/-- A quoted text is cut after as many bytes as it has characters. -/
theorem extract_token {t v : List Char} (hafter : after key s = some (gap ++ (quoted t ++ rest)))
    (hgap : Blank gap) : extract_quoted_value s key = .ok (some v) ↔
      v <+: escaped t ∧ utf8Len v = (escaped t).length := by
  have hq := quoted_token hgap t rest
  have hsmall : utf8Len (gap ++ ['"']) = gap.length + 1 := by
    rw [Rust.utf8Len_of_small, List.length_append]
    · rfl
    · intro c hc
      rcases List.mem_append.mp hc with hc | hc
      · exact (hgap.plain c hc).2.2.2
      · rw [List.mem_singleton.mp hc]
        rfl
  have hslice : extract_quoted_value s key = .ok (some v) ↔
      Rust.slice (gap ++ (quoted t ++ rest)) (gap.length + 1) (gap.length + 1 + (escaped t).length) =
        some v := by
    rw [extract_of_after hafter hq]
    cases Rust.slice (gap ++ (quoted t ++ rest)) (gap.length + 1) (gap.length + 1 + (escaped t).length) with
    | none => exact ⟨fun h => (nomatch h), fun h => (nomatch h)⟩
    | some cut => rw [Except.ok.injEq]
  have htext : gap ++ (quoted t ++ rest) = (gap ++ ['"']) ++ (escaped t ++ '"' :: rest) := by simp [quoted]
  have hlong := Rust.length_le_utf8Len (escaped t)
  rw [hslice, slice_eq_some, htext]
  constructor
  · rintro ⟨a, b, heq, hstart, hlen⟩
    have hsame := (Rust.splitBytes_eq_some.mpr ⟨heq, hstart⟩).symm.trans
      (Rust.splitBytes_eq_some.mpr ⟨rfl, hsmall⟩)
    obtain ⟨-, hbody⟩ := Prod.mk.inj (Option.some.inj hsame)
    rcases List.append_eq_append_iff.mp hbody with ⟨more, hv, -⟩ | ⟨more, hv, -⟩
    · exact ⟨⟨more, hv.symm⟩, hlen⟩
    · rw [hv, String.utf8Len_append] at hlen
      have hnil : utf8Len more = 0 := by omega
      have hmore := Rust.length_le_utf8Len more
      obtain rfl := List.eq_nil_of_length_eq_zero (show more.length = 0 by omega)
      rw [List.append_nil] at hv
      subst hv
      refine ⟨List.prefix_rfl, ?_⟩
      omega
  · rintro ⟨⟨more, hmore⟩, hlen⟩
    refine ⟨gap ++ ['"'], more ++ '"' :: rest, ?_, hsmall, hlen⟩
    rw [← hmore, List.append_assoc v]

theorem extract_of_after_none (h : after key s = none) : extract_quoted_value s key = .ok none := by
  unfold extract_quoted_value
  rw [h]

/-- Behind a key stands the text after the first one that is or ends with it. -/
theorem after_follower (hk : Key k) (hgaps : Gaps ts) (htail : Bare tail) (hquote : '"' ∉ tail) {t : List Char}
    (h : follower k (ts.map Prod.snd) = some t) :
    ∃ gap rest, Blank gap ∧ after (keyText k) (tokensText ts ++ tail) = some (gap ++ (quoted t ++ rest)) := by
  rw [after_tokens hk hgaps htail hquote]
  rw [follower_eq] at h
  obtain ⟨us, hus, hhead⟩ := Option.bind_eq_some_iff.mp h
  cases us with
  | nil => cases hhead
  | cons u us =>
    obtain rfl := Option.some.inj hhead
    refine ⟨u.1, tokensText us ++ tail, ?_, ?_⟩
    · clear h hhead
      induction ts with
      | nil => cases hus
      | cons t ts ih =>
        have hrest : Gaps ts := fun t' ht' => hgaps t' (List.mem_cons_of_mem t ht')
        rw [behind] at hus
        split_ifs at hus
        · obtain rfl := Option.some.inj hus
          exact hrest u List.mem_cons_self
        · exact ih hrest hus
    · rw [hus]
      simp [tokensText]

theorem extract_no_follower (hk : Key k) (hgaps : Gaps ts) (htail : Bare tail) (hquote : '"' ∉ tail)
    (hafter : after (keyText k) s = after (keyText k) (tokensText ts ++ tail))
    (h : follower k (ts.map Prod.snd) = none) : extract_quoted_value s (keyText k) = .ok none := by
  rw [after_tokens hk hgaps htail hquote] at hafter
  rw [follower_eq] at h
  cases hbehind : behind k ts with
  | none =>
    rw [hbehind] at hafter
    exact extract_of_after_none hafter
  | some us =>
    rw [hbehind] at hafter h
    cases us with
    | cons t us => cases h
    | nil =>
      have hscan : scan 0 none false tail = (none, none) := by
        rcases unquoted_or_quote false tail with ⟨esc, h⟩ | ⟨u, rest, rfl, -⟩
        · exact scan_end h
        · exact absurd (List.mem_append_right u List.mem_cons_self) hquote
      unfold extract_quoted_value
      rw [hafter]
      simp only [Option.map_some, tokensText, List.flatMap_nil, List.nil_append, hscan]

/-- A text with gaps yields the text after the first one that is or ends with a key, cut. -/
theorem extract_tokens_iff {v : List Char} (hk : Key k) (hgaps : Gaps ts) (htail : Bare tail)
    (hquote : '"' ∉ tail) (hafter : after (keyText k) s = after (keyText k) (tokensText ts ++ tail)) :
    extract_quoted_value s (keyText k) = .ok (some v) ↔
      ∃ t, follower k (ts.map Prod.snd) = some t ∧ v <+: escaped t ∧ utf8Len v = (escaped t).length := by
  cases hfollower : follower k (ts.map Prod.snd) with
  | none =>
    rw [extract_no_follower hk hgaps htail hquote hafter hfollower]
    constructor
    · exact fun h => (nomatch Except.ok.inj h)
    · exact fun ⟨_, h, _⟩ => (nomatch h)
  | some t =>
    obtain ⟨gap, rest, hgap, hone⟩ := after_follower hk hgaps htail hquote hfollower
    rw [hone] at hafter
    rw [extract_token hafter hgap]
    constructor
    · exact fun h => ⟨t, rfl, h⟩
    · rintro ⟨t', ht', h⟩
      obtain rfl := Option.some.inj ht'
      exact h

/-! ## The block of a game -/

def tokens (ps : List Pair) : List (List Char × List Char) :=
  ps.flatMap fun p => [(p.before, p.key), (p.between, p.value)]

theorem tokensText_tokens (ps : List Pair) : tokensText (tokens ps) = ps.flatMap Pair.text := by
  induction ps with
  | nil => rfl
  | cons p ps ih =>
    have hcons : tokensText (tokens (p :: ps)) =
        (p.before ++ quoted p.key) ++ ((p.between ++ quoted p.value) ++ tokensText (tokens ps)) := by
      simp [tokens, tokensText]
    rw [hcons, ih, List.flatMap_cons]
    simp [Pair.text]

theorem map_snd_tokens (ps : List Pair) :
    (tokens ps).map Prod.snd = ps.flatMap fun p => [p.key, p.value] := by
  induction ps with
  | nil => rfl
  | cons p ps ih =>
    show p.key :: p.value :: (tokens ps).map Prod.snd = p.key :: p.value :: _
    rw [ih]
    rfl

theorem gaps_tokens {ps : List Pair} (h : ∀ p ∈ ps, p.Wf) : Gaps (tokens ps) := by
  intro t ht
  obtain ⟨p, hp, hin⟩ := List.mem_flatMap.mp ht
  rcases List.mem_cons.mp hin with rfl | hin
  · exact (h p hp).before
  · rw [List.mem_singleton.mp hin]
    exact (h p hp).between

/-- Something follows a key. -/
theorem follower_isSome {ps : List Pair} {p : Pair} (hp : p ∈ ps) :
    (follower p.key (ps.flatMap fun p => [p.key, p.value])).isSome = true := by
  induction ps with
  | nil => cases hp
  | cons q ps ih =>
    show (follower p.key (q.key :: q.value :: ps.flatMap fun p => [p.key, p.value])).isSome = true
    rw [follower, follower]
    split_ifs with hkey hvalue
    · rfl
    · rcases List.mem_cons.mp hp with rfl | hp
      · exact absurd (by simp [ends]) hkey
      · obtain ⟨r, ps, rfl⟩ := List.exists_cons_of_ne_nil (List.ne_nil_of_mem hp)
        rfl
    · rcases List.mem_cons.mp hp with rfl | hp
      · exact absurd (by simp [ends]) hkey
      · exact ih hp

namespace Manifest

def ending (m : Manifest) : List Char := m.closing ++ '}' :: m.finish

theorem quote_not_mem_ending (m : Manifest) : '"' ∉ m.ending := by
  intro hin
  rcases List.mem_append.mp hin with hin | hin
  · exact (m.blank.2.2.1.plain _ hin).1 rfl
  · rcases List.mem_cons.mp hin with h | hin
    · exact absurd h (by decide)
    · exact (m.blank.2.2.2.plain _ hin).1 rfl

theorem bare_ending (m : Manifest) : Bare m.ending := by
  have hbrace : Bare ('}' :: m.finish) := by
    intro c hc
    obtain rfl := Option.some.inj hc
    rfl
  exact hbrace.blank_append m.blank.2.2.1

/-- Keys are looked for in the pairs. -/
theorem after_text (m : Manifest) (hk : Key k) (hstate : ends k "AppState".toList = false) :
    after (keyText k) m.text = after (keyText k) (tokensText (tokens m.pairs) ++ m.ending) := by
  have hstart : '"' ∉ m.start := fun hin => (m.blank.1.plain _ hin).1 rfl
  have hopening : '"' ∉ m.opening := fun hin => (m.blank.2.1.plain _ hin).1 rfl
  have hbrace : Bare ('{' :: (m.pairs.flatMap Pair.text ++ m.ending)) := by
    intro c hc
    obtain rfl := Option.some.inj hc
    rfl
  have hbare := hbrace.blank_append m.blank.2.1
  unfold Manifest.text
  rw [List.append_assoc, after_gap hstart]
  show after _ (quoted _ ++ (m.opening ++ '{' :: (_ ++ m.ending))) = _
  rw [after_quoted hk (hbare.apart hk), hstate, if_neg Bool.false_ne_true, after_gap hopening,
    after_other (by decide), tokensText_tokens]

/-- The value after a key of the block, cut. -/
theorem extract_iff (m : Manifest) (hk : Key k) (hstate : ends k "AppState".toList = false)
    (v : List Char) : extract_quoted_value m.text (keyText k) = .ok (some v) ↔
      ∃ t, follower k m.strings = some t ∧ v <+: escaped t ∧ utf8Len v = (escaped t).length := by
  rw [extract_tokens_iff hk (gaps_tokens m.wf) m.bare_ending m.quote_not_mem_ending (m.after_text hk hstate),
    map_snd_tokens]
  rfl

/-- The key of a pair has a value. -/
theorem extract_ne_none (m : Manifest) {p : Pair} (hp : p ∈ m.pairs) (hk : Key p.key)
    (hstate : ends p.key "AppState".toList = false) :
    extract_quoted_value m.text (keyText p.key) ≠ .ok none := by
  intro h
  have hsome := follower_isSome hp
  rw [← map_snd_tokens] at hsome
  obtain ⟨t, ht⟩ := Option.isSome_iff_exists.mp hsome
  obtain ⟨gap, rest, hgap, hafter⟩ :=
    after_follower hk (gaps_tokens m.wf) m.bare_ending m.quote_not_mem_ending ht
  rw [← m.after_text hk hstate] at hafter
  have hpresent := (present_of_extract h).mpr ⟨_, gap, escaped t, rest, hafter, quoted_token hgap t rest⟩
  cases hpresent

end Manifest

theorem digit_plain (h : c.isDigit = true) :
    c ≠ '"' ∧ c ≠ '\\' ∧ c.utf8Size = 1 ∧ Rust.isWhitespace c = false := by
  have hrange := Char.isDigit_iff_toNat.mp h
  rw [show '0'.toNat = 48 from rfl, show '9'.toNat = 57 from rfl] at hrange
  refine ⟨?_, ?_, ?_, ?_⟩
  · rintro rfl
    cases h
  · rintro rfl
    cases h
  · rw [Char.utf8Size_eq_one_iff, UInt32.le_iff_toNat_le]
    show c.toNat ≤ 127
    omega
  · unfold Rust.isWhitespace
    simp only [decide_eq_false_iff_not]
    omega

theorem trim_digits (hne : s ≠ []) (h : s.all Char.isDigit = true) : Rust.trim (String.ofList s) ≠ "" := by
  rw [List.all_eq_true] at h
  intro htrim
  obtain ⟨c, s, rfl⟩ := List.exists_cons_of_ne_nil hne
  have hc := (digit_plain (h c List.mem_cons_self)).2.2.2
  have hlist := congrArg String.toList htrim
  unfold Rust.trim at hlist
  rw [String.toList_ofList, String.toList_ofList, List.dropWhile_cons_of_neg (by simp [hc])] at hlist
  have hall := List.rdropWhile_eq_nil_iff.mp (hlist.trans rfl) c List.mem_cons_self
  rw [hc] at hall
  cases hall

/-- Digits are cut from the digits alone. -/
theorem cut_digits_iff (h : s.all Char.isDigit = true) :
    s <+: escaped t ∧ utf8Len s = (escaped t).length ↔ t = s := by
  rw [List.all_eq_true] at h
  have hlen : utf8Len s = s.length := Rust.utf8Len_of_small fun c hc => (digit_plain (h c hc)).2.2.1
  have hplain : escaped s = s :=
    escaped_plain fun c hc => ⟨(digit_plain (h c hc)).1, (digit_plain (h c hc)).2.1⟩
  constructor
  · rintro ⟨hbegins, hlength⟩
    have hescaped : s = escaped t := hbegins.eq_of_length (hlen.symm.trans hlength)
    have ht : ∀ c ∈ t, c ≠ '"' ∧ c ≠ '\\' := by
      intro c hc
      rw [← not_or]
      intro hspecial
      have hback : '\\' ∈ s := by
        rw [hescaped]
        refine List.mem_flatMap.mpr ⟨c, hc, ?_⟩
        rw [if_pos hspecial]
        exact List.mem_cons_self
      cases h _ hback
    rw [hescaped, escaped_plain ht]
  · rintro rfl
    rw [hplain]
    exact ⟨List.prefix_rfl, hlen⟩

/-- The app id is behind what is taken for its key, and so is a text that is cut to the name. -/
def Plain (m : Manifest) : Prop :=
  follower "appid".toList m.strings = some m.appid ∧
    ∃ t, follower "name".toList m.strings = some t ∧ m.name <+: escaped t ∧
      utf8Len m.name = (escaped t).length

theorem key_appid : Key "appid".toList := ⟨by simp, by simp⟩

theorem key_name : Key "name".toList := ⟨by simp, by simp⟩

/-- A manifest is read as it was written just when it is plain. -/
theorem parse_eq_iff_plain (m : Manifest) (path : String) :
    parse_appmanifest_content m.text path = .ok (.ok ⟨m.appid, m.name, path⟩) ↔ Plain m := by
  have happid := m.extract_iff key_appid (by decide) m.appid
  have hname := m.extract_iff key_name (by decide) m.name
  have hdigits : (∃ t, follower "appid".toList m.strings = some t ∧ m.appid <+: escaped t ∧
      utf8Len m.appid = (escaped t).length) ↔ follower "appid".toList m.strings = some m.appid := by
    constructor
    · rintro ⟨t, ht, hcut⟩
      rw [ht, (cut_digits_iff m.digits.2).mp hcut]
    · exact fun h => ⟨m.appid, h, (cut_digits_iff m.digits.2).mpr rfl⟩
  obtain ⟨p, hp, hkey⟩ : ∃ p ∈ m.pairs, p.key = "name".toList := by
    have hmem : ("name".toList, m.name) ∈ m.pairs.map fun p => (p.key, p.value) :=
      m.perm.mem_iff.mpr (List.mem_cons_of_mem _ List.mem_cons_self)
    obtain ⟨p, hp, heq⟩ := List.mem_map.mp hmem
    exact ⟨p, hp, (Prod.mk.inj heq).1⟩
  have hsome := m.extract_ne_none hp (hkey ▸ key_name) (by rw [hkey]; decide)
  rw [hkey] at hsome
  unfold Plain
  rw [← hname, ← hdigits, ← happid]
  constructor
  · intro h
    obtain ⟨o, ho, h⟩ := Rust.bind_eq_ok.mp h
    cases o with
    | none => cases Except.ok.inj h
    | some appid =>
      obtain ⟨name, hok, h⟩ := Rust.bind_eq_ok.mp h
      dsimp only at h
      split_ifs at h
      · cases Except.ok.inj h
      · obtain ⟨rfl, hgiven, -⟩ := SteamEntry.mk.inj (Except.ok.inj (Except.ok.inj h))
        cases name with
        | none => exact absurd hok hsome
        | some name =>
          obtain rfl : name = m.name := hgiven
          exact ⟨ho, hok⟩
  · rintro ⟨ho, hok⟩
    refine Rust.bind_eq_ok.mpr ⟨some m.appid, ho, Rust.bind_eq_ok.mpr ⟨some m.name, hok, ?_⟩⟩
    have hgood : ¬ (Rust.trim (String.ofList m.appid) = "" ∨ m.appid.all Char.isDigit = false) := by
      rw [not_or]
      refine ⟨trim_digits m.digits.1 m.digits.2, ?_⟩
      rw [m.digits.2]
      exact Bool.noConfusion
    exact if_neg hgood

/-- Manifests are read without a panic just when both slices are cut between characters, and as they were
written just when they are plain. -/
theorem parse_appmanifest_iff (content : List Char) (m : Manifest) (path : String) :
    ((∃ r, parse_appmanifest_content content path = .ok r) ↔
      Readable content appidKey ∧ (Present content appidKey → Readable content nameKey)) ∧
    (parse_appmanifest_content m.text path = .ok (.ok ⟨m.appid, m.name, path⟩) ↔ Plain m) :=
  ⟨parse_ok_iff content path, parse_eq_iff_plain m path⟩

/-- A game whose name ends with a letter of two bytes. -/
def cafe : Manifest where
  appid := "10".toList
  name := "Caf\u00e9".toList
  others := []
  pairs := [⟨[' '], "appid".toList, [' '], "10".toList⟩, ⟨['\n'], "name".toList, ['\t'], "Caf\u00e9".toList⟩]
  start := []
  opening := ['\n']
  closing := ['\n']
  finish := ['\n']
  digits := ⟨by simp, by simp⟩
  wf := by
    intro p hp
    rcases List.mem_cons.mp hp with rfl | hp
    · constructor <;> simp [Blank]
    · obtain rfl := List.mem_singleton.mp hp
      constructor <;> simp [Blank]
  perm := List.Perm.refl _
  apart := by
    intro p hp
    cases hp
  blank := by
    simp [Blank]

/-- It stops the parser. -/
theorem parse_panics :
    ¬ ∀ (content : List Char) (path : String), ∃ r, parse_appmanifest_content content path = .ok r := by
  intro h
  obtain ⟨r, hr⟩ := h cafe.text "appmanifest_10.acf"
  have hpanic : parse_appmanifest_content cafe.text "appmanifest_10.acf" = .error .boundary := by
    decide
  rw [hpanic] at hr
  cases hr

end Launcher
