import Mathlib.Data.List.Infix
import VynkorPlugins.Automations.Rules

/-!
# Templates are filled piece by piece

What `render` makes of the texts of a template that are literals and placeholders in turn.
-/

namespace Rust

variable {pat s a b : List Char}

theorem find_of_begins {c : Char} (h : pat <+: c :: s) :
    find pat (c :: s) = some ([], (c :: s).drop pat.length) :=
  if_pos (List.isPrefixOf_iff_prefix.mpr h)

theorem find_of_not_begins {c : Char} (h : ¬ pat <+: c :: s) :
    find pat (c :: s) = (find pat s).map fun parts => (c :: parts.1, parts.2) :=
  if_neg fun hpre => h (List.isPrefixOf_iff_prefix.mp hpre)

theorem find_eq_none_iff : find pat s = none ↔ ¬ pat <:+: s := by
  induction s with
  | nil =>
    unfold find
    by_cases hpat : pat = []
    · simp [hpat]
    · simp [hpat]
  | cons c s ih =>
    rw [List.infix_cons_iff, not_or, ← ih]
    by_cases hpre : pat <+: c :: s
    · simp [find_of_begins hpre, hpre]
    · rw [find_of_not_begins hpre, Option.map_eq_none_iff]
      exact (and_iff_right hpre).symm

/-- A text that does not end before is found where it stands. -/
theorem find_of_first (h : ¬ pat <:+: a ++ pat.dropLast) : find pat (a ++ (pat ++ b)) = some (a, b) := by
  induction a with
  | nil =>
    cases pat with
    | nil => exact absurd List.nil_infix h
    | cons c pat =>
      have hpre : c :: pat <+: c :: (pat ++ b) := List.prefix_append (c :: pat) b
      show find (c :: pat) (c :: (pat ++ b)) = _
      rw [find_of_begins hpre]
      show some ([], (pat ++ b).drop pat.length) = _
      rw [List.drop_left]
  | cons c a ih =>
    have hnot : ¬ pat <+: c :: (a ++ (pat ++ b)) := by
      intro hpre
      refine h (List.IsPrefix.isInfix ?_)
      have hlong : c :: (a ++ pat.dropLast) <+: c :: (a ++ (pat ++ b)) := by
        rw [List.cons_prefix_cons, List.prefix_append_right_inj]
        exact ⟨rfl, pat.dropLast_prefix.trans (List.prefix_append pat b)⟩
      refine List.prefix_of_prefix_length_le hpre hlong ?_
      rw [List.length_append, List.length_cons, List.length_dropLast]
      omega
    show find pat (c :: (a ++ (pat ++ b))) = _
    rw [find_of_not_begins hnot, ih fun hin => h (List.infix_cons hin)]
    rfl

end Rust

namespace Automations.Template

/-! ## Pieces -/

/-- A text that has no placeholder begin in it. -/
def Literal (l : List Char) : Prop := ¬ ['{', '{', '/'] <:+: l

/-- What may stand in a placeholder. -/
structure Pointer (p : List Char) : Prop where
  head : p.head? = some '/'
  opening : ¬ ['{', '{'] <:+: p
  closing : ¬ ['}', '}'] <:+: p
  last : p.getLast? ≠ some '}'

def placeholder (p : List Char) : List Char := ['{', '{'] ++ (p ++ ['}', '}'])

/-- A literal, and then placeholders with a literal after each. -/
structure Text where
  first : List Char
  pieces : List (List Char × List Char)

namespace Text

def Legal (t : Text) : Prop := Literal t.first ∧ ∀ piece ∈ t.pieces, Pointer piece.1 ∧ Literal piece.2

def spell (t : Text) : List Char := t.first ++ t.pieces.flatMap fun piece => placeholder piece.1 ++ piece.2

/-- The literals with the rendered values between them. -/
def fill (payload : Json) (t : Text) : List Char :=
  t.first ++ t.pieces.flatMap fun piece => interpolated payload piece.1 ++ piece.2

end Text

/-! ## Filled templates -/

/-- A string is the pointed value of its one placeholder, or its pieces in order. -/
def FilledText (payload : Json) (s : String) (r : Json) : Prop :=
  (∀ p, Pointer p → s.toList = placeholder p → r = (payload.pointer p).getD .null) ∧
    ∀ t : Text, t.Legal → s.toList = t.spell → (∀ p, Pointer p → s.toList ≠ placeholder p) →
      r = .str (String.ofList (t.fill payload))

mutual

/-- The arrays are as long, the objects have the same keys, all other values are the same, and the strings
    are filled. -/
def Filled (payload : Json) : Json → Json → Prop
  | .str s, r => FilledText payload s r
  | .arr items, r => ∃ items', r = .arr items' ∧ FilledItems payload items items'
  | .obj fs, r => ∃ fs', r = .obj fs' ∧ FilledFields payload fs fs'
  | other, r => r = other

def FilledItems (payload : Json) : List Json → List Json → Prop
  | [], rs => rs = []
  | v :: vs, rs => ∃ r rs', rs = r :: rs' ∧ Filled payload v r ∧ FilledItems payload vs rs'

def FilledFields (payload : Json) : List (String × Json) → List (String × Json) → Prop
  | [], rs => rs = []
  | (k, v) :: fs, rs => ∃ r rs', rs = (k, r) :: rs' ∧ Filled payload v r ∧ FilledFields payload fs rs'

end

mutual

/-- The string values of a template. -/
def strings : Json → List String
  | .str s => [s]
  | .arr items => itemStrings items
  | .obj fs => fieldStrings fs
  | _ => []

def itemStrings : List Json → List String
  | [] => []
  | v :: vs => strings v ++ itemStrings vs

def fieldStrings : List (String × Json) → List String
  | [] => []
  | (_, v) :: fs => strings v ++ fieldStrings fs

end

/-- Where a single brace follows the only placeholder of a text, the pointer with the brace points to the
    text that the pieces make. -/
def BraceAgrees (payload : Json) (s : String) : Prop :=
  ∀ p, Pointer p → s.toList = placeholder p ++ ['}'] →
    payload.pointer (p ++ ['}']) = some (.str (String.ofList (interpolated payload p ++ ['}'])))

variable {payload : Json} {s : String} {p l : List Char} {t : Text}

/-! ## One string -/

theorem literal_find (h : Literal l) (b : List Char) :
    Rust.find ['{', '{', '/'] (l ++ (['{', '{', '/'] ++ b)) = some (l, b) := by
  refine Rust.find_of_first fun hin => h ?_
  rw [show ['{', '{', '/'].dropLast = ['{'] ++ ['{'] from rfl, ← List.append_assoc] at hin
  -- what ends with `/` ends in the literal
  have hbrace : ∀ m : List Char, ['{', '{', '/'] <:+: m ++ ['{'] → ['{', '{', '/'] <:+: m := by
    intro m hm
    refine (List.infix_concat_iff.mp hm).resolve_left fun hsuffix => ?_
    obtain ⟨front, heq⟩ := hsuffix
    have hlast := congrArg List.getLast? heq
    simp at hlast
  exact hbrace l (hbrace _ hin)

/-- One brace after a pointer does not close its placeholder. -/
theorem not_closing_concat (hclosing : ¬ ['}', '}'] <:+: p) (hlast : p.getLast? ≠ some '}') :
    ¬ ['}', '}'] <:+: p ++ ['}'] := by
  intro hin
  rcases List.infix_concat_iff.mp hin with hsuffix | hin
  · obtain ⟨front, heq⟩ := hsuffix
    have hp : front ++ ['}'] = p := by
      refine (List.append_left_inj ['}']).mp ?_
      rw [List.append_assoc]
      exact heq
    rw [← hp] at hlast
    simp at hlast
  · exact hclosing hin

theorem not_opening_concat (hopening : ¬ ['{', '{'] <:+: p) : ¬ ['{', '{'] <:+: p ++ ['}'] := by
  intro hin
  rcases List.infix_concat_iff.mp hin with hsuffix | hin
  · obtain ⟨front, heq⟩ := hsuffix
    have hlast := congrArg List.getLast? heq
    simp at hlast
  · exact hopening hin

/-- A pointer is read up to the braces that close its placeholder. -/
theorem closing_find (hclosing : ¬ ['}', '}'] <:+: p) (hlast : p.getLast? ≠ some '}') (b : List Char) :
    Rust.find ['}', '}'] (p ++ (['}', '}'] ++ b)) = some (p, b) :=
  Rust.find_of_first (not_closing_concat hclosing hlast)

/-- The loop writes the pieces of a text in turn. -/
theorem interpolate_spell (payload : Json) (first : List Char) (pieces : List (List Char × List Char))
    (fuel : Nat) (hlegal : (⟨first, pieces⟩ : Text).Legal) (hfuel : pieces.length < fuel) :
    interpolate payload fuel (⟨first, pieces⟩ : Text).spell = (⟨first, pieces⟩ : Text).fill payload := by
  induction pieces generalizing first fuel with
  | nil =>
    obtain ⟨fuel, rfl⟩ : ∃ n, fuel = n + 1 := ⟨fuel - 1, by simp at hfuel; omega⟩
    have hnone := Rust.find_eq_none_iff.mpr hlegal.1
    simp [Text.spell, Text.fill, interpolate, hnone]
  | cons piece pieces ih =>
    obtain ⟨fuel, rfl⟩ : ∃ n, fuel = n + 1 := ⟨fuel - 1, by omega⟩
    obtain ⟨p, l⟩ := piece
    obtain ⟨hpointer, hliteral⟩ := hlegal.2 (p, l) List.mem_cons_self
    have hrest : (⟨l, pieces⟩ : Text).Legal := ⟨hliteral, fun q hq => hlegal.2 q (List.mem_cons_of_mem _ hq)⟩
    obtain ⟨q, rfl⟩ : ∃ q, p = '/' :: q := by
      cases p with
      | nil => cases hpointer.head
      | cons c q => exact ⟨q, by rw [Option.some.inj hpointer.head]⟩
    have hclosing : ¬ ['}', '}'] <:+: q := fun hin => hpointer.closing (List.infix_cons hin)
    have hlast : q.getLast? ≠ some '}' := by
      intro hq
      have hp := hpointer.last
      rw [List.getLast?_cons, hq] at hp
      exact hp rfl
    have hspell : (⟨first, ('/' :: q, l) :: pieces⟩ : Text).spell =
        first ++ (['{', '{', '/'] ++ (q ++ (['}', '}'] ++ (⟨l, pieces⟩ : Text).spell))) := by
      simp [Text.spell, placeholder]
    have hfill : (⟨first, ('/' :: q, l) :: pieces⟩ : Text).fill payload =
        first ++ interpolated payload ('/' :: q) ++ (⟨l, pieces⟩ : Text).fill payload := by
      simp [Text.fill]
    rw [hspell, hfill]
    unfold interpolate
    simp only [literal_find hlegal.1, closing_find hclosing hlast]
    rw [ih l fuel hrest (by simp at hfuel; omega)]

theorem placeholder_inj {q : List Char} (h : placeholder p = placeholder q) : p = q :=
  List.append_cancel_right (List.append_cancel_left h)

theorem wholePlaceholder_placeholder (p : List Char) :
    wholePlaceholder (placeholder p) =
      if p.head? = some '/' ∧ Rust.find ['}', '}'] p = none ∧ Rust.find ['{', '{'] p = none then some p
      else none := by
  have hdrop : (placeholder p).drop 2 = p ++ ['}', '}'] := rfl
  have htake : (p ++ ['}', '}']).take ((placeholder p).length - 4) = p := by
    refine List.take_left' ?_
    simp [placeholder]
  unfold wholePlaceholder
  rw [hdrop, htake, if_pos]
  exact ⟨rfl, List.isSuffixOf_iff_suffix.mpr (List.suffix_append p _)⟩

/-- What the shortcut takes for one placeholder. -/
theorem wholePlaceholder_eq_some {s : List Char} :
    wholePlaceholder s = some p ↔
      s = placeholder p ∧ p.head? = some '/' ∧ ¬ ['}', '}'] <:+: p ∧ ¬ ['{', '{'] <:+: p := by
  constructor
  · intro h
    obtain ⟨q, rfl⟩ : ∃ q, s = placeholder q := by
      by_contra hnone
      unfold wholePlaceholder at h
      rw [if_neg] at h
      · cases h
      · rintro ⟨hpre, hsuf⟩
        obtain ⟨r, rfl⟩ := List.isPrefixOf_iff_prefix.mp hpre
        obtain ⟨q, hq⟩ := List.isSuffixOf_iff_suffix.mp hsuf
        exact hnone ⟨q, by rw [placeholder, hq]; rfl⟩
    rw [wholePlaceholder_placeholder] at h
    split_ifs at h with hlegal
    obtain rfl := Option.some.inj h
    exact ⟨rfl, hlegal.1, Rust.find_eq_none_iff.mp hlegal.2.1, Rust.find_eq_none_iff.mp hlegal.2.2⟩
  · rintro ⟨rfl, hhead, hclosing, hopening⟩
    rw [wholePlaceholder_placeholder, if_pos]
    exact ⟨hhead, Rust.find_eq_none_iff.mpr hclosing, Rust.find_eq_none_iff.mpr hopening⟩

theorem wholePlaceholder_pointer (h : Pointer p) : wholePlaceholder (placeholder p) = some p :=
  wholePlaceholder_eq_some.mpr ⟨rfl, h.head, h.closing, h.opening⟩

/-- What the shortcut takes is a pointer, or one with a brace after it. -/
theorem pointer_or_brace {s : List Char} (h : wholePlaceholder s = some p) :
    Pointer p ∨ ∃ q, Pointer q ∧ p = q ++ ['}'] := by
  obtain ⟨-, hhead, hclosing, hopening⟩ := wholePlaceholder_eq_some.mp h
  by_cases hlast : p.getLast? = some '}'
  · right
    obtain ⟨q, rfl⟩ := List.getLast?_eq_some_iff.mp hlast
    refine ⟨q, ⟨?_, fun hin => hopening ?_, fun hin => hclosing ?_, fun hq => hclosing ?_⟩, rfl⟩
    · cases q with
      | nil => simp at hhead
      | cons c q => exact hhead
    · exact hin.trans (List.prefix_append q _).isInfix
    · exact hin.trans (List.prefix_append q _).isInfix
    · obtain ⟨front, rfl⟩ := List.getLast?_eq_some_iff.mp hq
      exact ⟨front, [], by simp⟩
  · exact .inl ⟨hhead, hopening, hclosing, hlast⟩

/-- A single brace after the only placeholder of a text. -/
def braced (p : List Char) : Text := ⟨[], [(p, ['}'])]⟩

theorem braced_legal (h : Pointer p) : (braced p).Legal := by
  constructor
  · intro hin
    have hle := hin.length_le
    simp [braced] at hle
  · intro piece hpiece
    obtain rfl := List.mem_singleton.mp hpiece
    refine ⟨h, fun hin => ?_⟩
    simpa using hin.length_le

theorem spell_braced (p : List Char) : (braced p).spell = placeholder p ++ ['}'] := by
  simp [braced, Text.spell]

theorem fill_braced (payload : Json) (p : List Char) :
    (braced p).fill payload = interpolated payload p ++ ['}'] := by
  simp [braced, Text.fill]

theorem spell_braced_eq (p : List Char) : (braced p).spell = placeholder (p ++ ['}']) := by
  simp [spell_braced, placeholder]

theorem length_pieces_le (t : Text) : 4 * t.pieces.length ≤ t.spell.length := by
  unfold Text.spell
  rw [List.length_append]
  induction t.pieces with
  | nil => simp
  | cons piece pieces ih =>
    simp only [List.flatMap_cons, List.length_append, List.length_cons, placeholder, List.length_nil] at ih ⊢
    omega

/-- What the loop makes of a text does not depend on how its pieces are told apart. -/
theorem fill_eq_interpolate (payload : Json) (h : t.Legal) (hspell : s.toList = t.spell) :
    interpolate payload (s.toList.length) s.toList = t.fill payload := by
  rw [hspell]
  cases hpieces : t.pieces with
  | nil =>
    obtain ⟨first, pieces⟩ := t
    obtain rfl : pieces = [] := hpieces
    have hnone := Rust.find_eq_none_iff.mpr h.1
    cases first with
    | nil => simp [Text.spell, Text.fill, interpolate]
    | cons c cs => simp [Text.spell, Text.fill, interpolate, hnone]
  | cons piece pieces =>
    have hle := length_pieces_le t
    refine interpolate_spell payload t.first t.pieces _ h ?_
    rw [hpieces, List.length_cons] at hle ⊢
    omega

/-- A string is filled unless the shortcut takes a brace for a part of the pointer. -/
theorem filledText_iff (payload : Json) (s : String) :
    FilledText payload s (render_str s payload) ↔ BraceAgrees payload s := by
  constructor
  · intro h p hp hs
    have hplaceholder : s.toList = placeholder (p ++ ['}']) := by
      rw [hs, ← spell_braced, spell_braced_eq]
    have hwhole : wholePlaceholder s.toList = some (p ++ ['}']) := by
      rw [wholePlaceholder_eq_some]
      refine ⟨hplaceholder, ?_, fun hin => ?_, fun hin => ?_⟩
      · cases p with
        | nil => cases hp.head
        | cons c p => exact hp.head
      · exact not_closing_concat hp.closing hp.last hin
      · exact not_opening_concat hp.opening hin
    have hnot : ∀ q, Pointer q → s.toList ≠ placeholder q := by
      intro q hq heq
      obtain rfl := placeholder_inj (hplaceholder.symm.trans heq)
      exact hq.last (by simp)
    have hfill := h.2 (braced p) (braced_legal hp) (hs.trans (spell_braced p).symm) hnot
    rw [fill_braced] at hfill
    unfold render_str at hfill
    rw [hwhole] at hfill
    replace hfill : (payload.pointer (p ++ ['}'])).getD .null = _ := hfill
    cases hpointed : payload.pointer (p ++ ['}']) with
    | none =>
      rw [hpointed] at hfill
      cases hfill
    | some v =>
      rw [hpointed] at hfill
      exact congrArg some hfill
  · intro h
    unfold render_str
    cases hwhole : wholePlaceholder s.toList with
    | none =>
      constructor
      · intro p hp hs
        rw [hs, wholePlaceholder_pointer hp] at hwhole
        cases hwhole
      · intro t ht hspell _
        show Json.str _ = _
        rw [fill_eq_interpolate payload ht hspell]
    | some p =>
      obtain ⟨hs, -⟩ := wholePlaceholder_eq_some.mp hwhole
      rcases pointer_or_brace hwhole with hp | ⟨q, hq, rfl⟩
      · constructor
        · intro p' hp' hs'
          obtain rfl := placeholder_inj (hs.symm.trans hs')
          rfl
        · intro t _ _ hnot
          exact absurd hs (hnot p hp)
      · rw [← spell_braced_eq] at hs
        constructor
        · intro p' hp' hs'
          rw [spell_braced_eq] at hs
          obtain rfl := placeholder_inj (hs.symm.trans hs')
          exact absurd (by simp) hp'.last
        · intro t ht hspell _
          have hbrace := h q hq (hs.trans (spell_braced q))
          rw [← fill_eq_interpolate payload ht hspell, fill_eq_interpolate payload (braced_legal hq) hs,
            fill_braced]
          show (payload.pointer (q ++ ['}'])).getD .null = _
          rw [hbrace]
          rfl

/-! ## Whole templates -/

mutual

theorem filled_iff (payload : Json) (t : Json) :
    Filled payload t (render payload t) ↔ ∀ s ∈ strings t, BraceAgrees payload s := by
  match t with
  | .null => simp [render, Filled, strings]
  | .bool b => simp [render, Filled, strings]
  | .int n => simp [render, Filled, strings]
  | .float x => simp [render, Filled, strings]
  | .str s => simpa [render, Filled, strings] using filledText_iff payload s
  | .arr items => simpa [render, Filled, strings] using filledItems_iff payload items
  | .obj fs => simpa [render, Filled, strings] using filledFields_iff payload fs

theorem filledItems_iff (payload : Json) (items : List Json) :
    FilledItems payload items (renderItems payload items) ↔ ∀ s ∈ itemStrings items, BraceAgrees payload s := by
  match items with
  | [] => simp [renderItems, FilledItems, itemStrings]
  | v :: vs =>
    have hv := filled_iff payload v
    have hvs := filledItems_iff payload vs
    simp only [renderItems, FilledItems, itemStrings, List.forall_mem_append, ← hv, ← hvs]
    constructor
    · rintro ⟨r, rs, heq, hr, hrs⟩
      obtain ⟨rfl, rfl⟩ := List.cons.inj heq
      exact ⟨hr, hrs⟩
    · rintro ⟨hr, hrs⟩
      exact ⟨_, _, rfl, hr, hrs⟩

theorem filledFields_iff (payload : Json) (fs : List (String × Json)) :
    FilledFields payload fs (renderFields payload fs) ↔ ∀ s ∈ fieldStrings fs, BraceAgrees payload s := by
  match fs with
  | [] => simp [renderFields, FilledFields, fieldStrings]
  | (k, v) :: fs =>
    have hv := filled_iff payload v
    have hfs := filledFields_iff payload fs
    simp only [renderFields, FilledFields, fieldStrings, List.forall_mem_append, ← hv, ← hfs]
    constructor
    · rintro ⟨r, rs, heq, hr, hrs⟩
      obtain ⟨hfirst, rfl⟩ := List.cons.inj heq
      obtain rfl := (Prod.mk.inj hfirst).2
      exact ⟨hr, hrs⟩
    · rintro ⟨hr, hrs⟩
      exact ⟨_, _, rfl, hr, hrs⟩

end

theorem render_str_plain (h : Literal s.toList) : render_str s payload = .str s := by
  have hnone := Rust.find_eq_none_iff.mpr h
  have hwhole : wholePlaceholder s.toList = none := by
    cases hwhole : wholePlaceholder s.toList with
    | none => rfl
    | some p =>
      obtain ⟨hs, hhead, -⟩ := wholePlaceholder_eq_some.mp hwhole
      cases p with
      | nil => cases hhead
      | cons c p =>
        obtain rfl := Option.some.inj hhead
        exact absurd ⟨[], p ++ ['}', '}'], by rw [hs]; rfl⟩ h
  have hloop : ∀ fuel, interpolate payload fuel s.toList = s.toList := by
    intro fuel
    cases fuel with
    | zero => rfl
    | succ fuel => simp [interpolate, hnone]
  unfold render_str
  rw [hwhole]
  dsimp only
  rw [hloop, String.ofList_toList]

mutual

/-- A template with no placeholder is rendered as it is. -/
theorem render_plain (payload : Json) (t : Json) (h : has_placeholders t = false) : render payload t = t := by
  match t with
  | .null => simp [render]
  | .bool b => simp [render]
  | .int n => simp [render]
  | .float x => simp [render]
  | .str s =>
    have hnone : Rust.find ['{', '{', '/'] s.toList = none := by simpa [has_placeholders] using h
    rw [render, render_str_plain (Rust.find_eq_none_iff.mp hnone)]
  | .arr items => rw [render, renderItems_plain payload items (by simpa [has_placeholders] using h)]
  | .obj fs => rw [render, renderFields_plain payload fs (by simpa [has_placeholders] using h)]

theorem renderItems_plain (payload : Json) (items : List Json) (h : anyItem items = false) :
    renderItems payload items = items := by
  match items with
  | [] => simp [renderItems]
  | v :: vs =>
    rw [anyItem, Bool.or_eq_false_iff] at h
    rw [renderItems, render_plain payload v h.1, renderItems_plain payload vs h.2]

theorem renderFields_plain (payload : Json) (fs : List (String × Json)) (h : anyField fs = false) :
    renderFields payload fs = fs := by
  match fs with
  | [] => simp [renderFields]
  | (k, v) :: fs =>
    rw [anyField, Bool.or_eq_false_iff] at h
    rw [renderFields, render_plain payload v h.1, renderFields_plain payload fs h.2]

end

/-- A template is filled unless a single brace follows the only placeholder of a string. -/
theorem render_fills_iff (payload t : Json) :
    Filled payload t (render payload t) ∧ (has_placeholders t = false → render payload t = t) ↔
      ∀ s ∈ strings t, BraceAgrees payload s := by
  rw [filled_iff]
  exact and_iff_left (render_plain payload t)

/-- `{{/a}}}`, with no member `a}` in the payload. -/
theorem render_not_fills :
    ¬ ∀ payload t : Json, Filled payload t (render payload t) ∧
      (has_placeholders t = false → render payload t = t) := by
  intro h
  have hbrace := (filledText_iff (.obj [("a", .int 1)]) (String.ofList (braced ['/', 'a']).spell)).mp
    (h (.obj [("a", .int 1)]) (.str (String.ofList (braced ['/', 'a']).spell))).1
  have hpointer : Pointer ['/', 'a'] := by
    refine ⟨rfl, ?_, ?_, by simp⟩
    · rw [← Rust.find_eq_none_iff]
      rfl
    · rw [← Rust.find_eq_none_iff]
      rfl
  have hpointed := hbrace ['/', 'a'] hpointer (by rw [String.toList_ofList, spell_braced])
  have hmiss : (Json.obj [("a", .int 1)]).pointer (['/', 'a'] ++ ['}']) = none := by decide
  rw [hmiss] at hpointed
  cases hpointed

end Automations.Template
