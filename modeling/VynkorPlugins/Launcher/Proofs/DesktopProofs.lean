import VynkorPlugins.Launcher.Desktop

/-!
# The arguments of a command line

What the launcher splits a line into, item by item, and when that is the arguments the line was written from.
-/

namespace Launcher

open Rust (isWhitespace words joined squeeze Spaced)
open Item (escape escaped)

variable {s t : List Char} {c : Char} {item : Item} {items : List Item} {st : Split}

/-- The argument is not empty, has no percent sign, and its only white space is single spaces. -/
structure Tame (s : List Char) : Prop where
  ne_nil : s ≠ []
  percent : '%' ∉ s
  spaced : Spaced s

/-- What is left of an argument without its percent signs. -/
def kept (s : List Char) : List Char := s.filter fun c => c ≠ '%'

/-- What an item is split into. -/
def Item.split : Item → List (List Char)
  | .plain s => words (kept s)
  | .quoted s => if kept s = [] then [] else [squeeze false (kept s)]
  | .code _ => []

/-! ## Percent signs -/

theorem strip_percent_step (c : Char) (cs : List Char) :
    strip_percent (c :: cs) =
      if c = '%' then
        match cs with
        | [] => []
        | _ :: cs => strip_percent cs
      else c :: strip_percent cs :=
  strip_percent.eq_def _

theorem strip_percent_cons (hc : c ≠ '%') (cs : List Char) :
    strip_percent (c :: cs) = c :: strip_percent cs := by
  rw [strip_percent_step, if_neg hc]

theorem strip_percent_pair (c : Char) (cs : List Char) :
    strip_percent ('%' :: c :: cs) = strip_percent cs := by
  rw [strip_percent_step, if_pos rfl]

theorem strip_escaped (s t : List Char) :
    strip_percent (s.flatMap escape ++ t) = (kept s).flatMap escape ++ strip_percent t := by
  induction s with
  | nil => rfl
  | cons c s ih =>
    rw [List.flatMap_cons, List.append_assoc]
    by_cases hc : c = '%'
    · subst hc
      show strip_percent ('%' :: '%' :: (s.flatMap escape ++ t)) = (kept s).flatMap escape ++ _
      rw [strip_percent_pair, ih]
    · have hkept : kept (c :: s) = c :: kept s := List.filter_cons_of_pos (by simpa using hc)
      rw [hkept, List.flatMap_cons, List.append_assoc, ← ih]
      by_cases hescaped : c ∈ escaped
      · have hescape : escape c = ['\\', c] := by
          unfold escape
          rw [if_neg hc, if_pos hescaped]
        rw [hescape]
        show strip_percent ('\\' :: c :: (s.flatMap escape ++ t)) = '\\' :: c :: _
        rw [strip_percent_cons (by decide), strip_percent_cons hc]
        rfl
      · have hescape : escape c = [c] := by
          unfold escape
          rw [if_neg hc, if_neg hescaped]
        rw [hescape]
        exact strip_percent_cons hc _

/-- An item without percent signs. -/
def Item.stripped : Item → List Char
  | .plain s => (kept s).flatMap escape
  | .quoted s => '"' :: (kept s).flatMap escape ++ ['"']
  | .code _ => []

theorem strip_write (item : Item) (t : List Char) :
    strip_percent (item.write ++ t) = item.stripped ++ strip_percent t := by
  cases item with
  | plain s => exact strip_escaped s t
  | quoted s =>
    show strip_percent ('"' :: (s.flatMap escape ++ ['"'] ++ t)) =
      '"' :: ((kept s).flatMap escape ++ ['"'] ++ strip_percent t)
    rw [strip_percent_cons (by decide), List.append_assoc, strip_escaped, List.append_assoc]
    show _ = '"' :: ((kept s).flatMap escape ++ '"' :: strip_percent t)
    rw [← strip_percent_cons (by decide) t]
    rfl
  | code c => exact strip_percent_pair c t

theorem words_strip_line (items : List Item) :
    words (strip_percent (line items)) = items.flatMap fun item => words item.stripped := by
  have hnil : words (strip_percent []) = [] := rfl
  induction items with
  | nil => exact hnil
  | cons item items ih =>
    cases items with
    | nil =>
      have hone := strip_write item []
      rw [List.append_nil] at hone
      have hline : line [item] = item.write := by simp [line, joined, List.intercalate]
      rw [hline, hone]
      simp [strip_percent]
    | cons next items =>
      have hline : line (item :: next :: items) = item.write ++ ' ' :: line (next :: items) := by
        have happend := Rust.joined_append (List.cons_ne_nil item.write [])
          (List.cons_ne_nil next.write (items.map Item.write))
        rw [show joined [item.write] = item.write by simp [joined, List.intercalate]] at happend
        exact happend
      rw [hline, strip_write, strip_percent_cons (by decide), List.flatMap_cons, ← ih]
      exact Rust.words_append item.stripped _ (show isWhitespace ' ' = true from rfl)

/-! ## Blanks -/

theorem escape_blank (hc : isWhitespace c = true) : escape c = [c] := by
  have hplain : ∀ d ∈ '%' :: escaped, isWhitespace d = false := by
    simp [escaped, isWhitespace]
  have hnot : c ∉ '%' :: escaped := by
    intro hin
    rw [hplain c hin] at hc
    cases hc
  rw [List.mem_cons, not_or] at hnot
  unfold escape
  rw [if_neg hnot.1, if_neg hnot.2]

theorem escape_not_blank (hc : isWhitespace c = false) : ∀ d ∈ escape c, isWhitespace d = false := by
  intro d hd
  unfold escape at hd
  split_ifs at hd
  · simp only [List.mem_cons, List.not_mem_nil, or_false, or_self] at hd
    rw [hd]
    rfl
  · rcases List.mem_cons.mp hd with rfl | hd
    · rfl
    · rw [List.mem_singleton.mp hd]
      exact hc
  · rw [List.mem_singleton.mp hd]
    exact hc

theorem squeeze_append_word {run : Bool} {w : List Char} (hne : w ≠ [])
    (hw : ∀ d ∈ w, isWhitespace d = false) : squeeze run (w ++ t) = w ++ squeeze false t := by
  induction w generalizing run with
  | nil => exact absurd rfl hne
  | cons d w ih =>
    have hd := hw d List.mem_cons_self
    rw [List.cons_append, squeeze, hd]
    by_cases hempty : w = []
    · subst hempty
      rfl
    · show d :: squeeze false (w ++ t) = _
      rw [ih hempty fun e he => hw e (List.mem_cons_of_mem d he)]
      rfl

theorem escape_ne_nil (c : Char) : escape c ≠ [] := by
  unfold escape
  split_ifs
  · simp
  · simp
  · simp

/-- Blanks are squeezed in an escaped text as in the text. -/
theorem squeeze_escaped (run : Bool) (s : List Char) :
    squeeze run (s.flatMap escape) = (squeeze run s).flatMap escape := by
  induction s generalizing run with
  | nil => rfl
  | cons c s ih =>
    rw [List.flatMap_cons]
    by_cases hc : isWhitespace c = true
    · rw [escape_blank hc, List.singleton_append, squeeze, squeeze, if_pos hc, if_pos hc, ih]
      split_ifs
      · rfl
      · rw [List.flatMap_cons]
        rfl
    · rw [Bool.not_eq_true] at hc
      rw [squeeze_append_word (escape_ne_nil c) (escape_not_blank hc), ih, squeeze, hc]
      rfl

theorem joined_quoted (s : List Char) :
    joined (words ('"' :: s.flatMap escape ++ ['"'])) =
      '"' :: (squeeze false s).flatMap escape ++ ['"'] := by
  have hlast : ∀ c ∈ (s.flatMap escape ++ ['"']).getLast?, isWhitespace c = false := by
    intro c hc
    rw [List.getLast?_concat] at hc
    obtain rfl := Option.some.inj hc
    rfl
  have hword := (Rust.joined_words hlast).2 ['"'] (by simp) (by simp [isWhitespace])
  rw [Rust.squeeze_concat false _ (by decide), squeeze_escaped] at hword
  exact hword

/-! ## Splitting -/

/-- Nothing is open or escaped. -/
structure Clear (st : Split) : Prop where
  single : st.in_single = false
  double : st.in_double = false
  escaped : st.escaped = false

theorem Clear.step_blank (h : Clear st) : st.step ' ' = ⟨st.finish, [], false, false, false⟩ := by
  obtain ⟨args, cur, single, double, esc⟩ := st
  obtain rfl : single = false := h.single
  obtain rfl : double = false := h.double
  obtain rfl : esc = false := h.escaped
  by_cases hcur : cur = []
  · subst hcur
    simp [Split.step, Split.finish]
  · simp [Split.step, Split.finish, hcur]

theorem Clear.step_plain (h : Clear st) (hc : c ∉ reserved) : st.step c = st.push c := by
  simp only [reserved, List.mem_cons, not_or] at hc
  simp [Split.step, h.single, h.double, h.escaped, hc]

theorem Clear.foldl_plain (h : Clear st) (hs : ∀ c ∈ s, c ∉ reserved) :
    s.foldl Split.step st = { st with cur := st.cur ++ s } := by
  induction s generalizing st with
  | nil => simp
  | cons c s ih =>
    have hpush : Clear (st.push c) := ⟨h.single, h.double, h.escaped⟩
    rw [List.foldl_cons, h.step_plain (hs c List.mem_cons_self),
      ih hpush fun d hd => hs d (List.mem_cons_of_mem c hd)]
    simp [Split.push]

/-- Between double quotes, an escaped text is read as the text. -/
theorem foldl_escaped (hs : '%' ∉ s) {st : Split} (hsingle : st.in_single = false)
    (hdouble : st.in_double = true) (hesc : st.escaped = false) :
    (s.flatMap escape).foldl Split.step st = { st with cur := st.cur ++ s } := by
  induction s generalizing st with
  | nil => simp
  | cons c s ih =>
    rw [List.mem_cons, not_or] at hs
    have hone : (escape c).foldl Split.step st = st.push c := by
      obtain ⟨args, cur, single, double, esc⟩ := st
      obtain rfl : single = false := hsingle
      obtain rfl : double = true := hdouble
      obtain rfl : esc = false := hesc
      unfold escape
      rw [if_neg (Ne.symm hs.1)]
      by_cases hc : c ∈ escaped
      · rw [if_pos hc]
        simp [Split.step, Split.push]
      · rw [if_neg hc]
        simp only [escaped, List.mem_cons, not_or] at hc
        simp [Split.step, Split.push, hc]
    have hrest := ih hs.2 (show (st.push c).in_single = false from hsingle) hdouble hesc
    rw [List.flatMap_cons, List.foldl_append, hone, hrest]
    simp [Split.push]

theorem percent_not_kept (s : List Char) : '%' ∉ kept s := by
  unfold kept
  rw [List.mem_filter]
  simp

/-- The words of an item are split on their own. -/
theorem foldl_item (h : item.Legal) (args : List (List Char)) :
    ∃ st, (joined (words item.stripped)).foldl Split.step ⟨args, [], false, false, false⟩ = st ∧
      Clear st ∧ st.finish = args ++ item.split := by
  cases item with
  | code c => exact ⟨_, rfl, ⟨rfl, rfl, rfl⟩, rfl⟩
  | quoted s =>
    refine ⟨_, rfl, ?_⟩
    have hpercent : '%' ∉ squeeze false (kept s) := by
      intro hin
      rcases Rust.mem_squeeze hin with h | ⟨-, h⟩
      · cases h
      · exact percent_not_kept s h
    have hopen : Split.step ⟨args, [], false, false, false⟩ '"' = ⟨args, [], false, true, false⟩ := rfl
    have hclose : Split.step ⟨args, squeeze false (kept s), false, true, false⟩ '"' =
        ⟨args, squeeze false (kept s), false, false, false⟩ := rfl
    show Clear ((joined (words ('"' :: (kept s).flatMap escape ++ ['"']))).foldl _ _) ∧ Split.finish
      ((joined (words ('"' :: (kept s).flatMap escape ++ ['"']))).foldl _ _) = _
    rw [joined_quoted, List.cons_append, List.foldl_cons, hopen, List.foldl_append,
      foldl_escaped hpercent rfl rfl rfl]
    dsimp only
    rw [List.nil_append, List.foldl_cons, List.foldl_nil, hclose]
    refine ⟨⟨rfl, rfl, rfl⟩, ?_⟩
    show args ++ _ = args ++ (if kept s = [] then [] else [squeeze false (kept s)])
    by_cases hempty : kept s = []
    · simp [hempty, squeeze]
    · rw [if_neg hempty, if_neg fun hnil => hempty (Rust.squeeze_eq_nil hnil)]
  | plain s =>
    obtain ⟨-, hplain⟩ := h
    have hescape : (kept s).flatMap escape = kept s := by
      have hone : ∀ c ∈ kept s, escape c = [c] := by
        intro c hc
        have hnot := hplain c (List.mem_of_mem_filter hc)
        have hpercent : c ≠ '%' := by simpa using List.of_mem_filter hc
        have hesc : c ∉ escaped := by
          intro hin
          have hsub : ∀ d ∈ escaped, d ∈ reserved := by simp [escaped, reserved]
          exact hnot (hsub c hin)
        unfold escape
        rw [if_neg hpercent, if_neg hesc]
      rw [List.flatMap_congr hone, List.flatMap_singleton']
    have hwords : ∀ w ∈ words (kept s), w ≠ [] ∧ ∀ c ∈ w, c ∉ reserved := by
      intro w hw
      obtain ⟨hne, hchars⟩ := Rust.of_mem_words hw
      exact ⟨hne, fun c hc => hplain c (List.mem_of_mem_filter (hchars c hc).2)⟩
    show ∃ st, (joined (words ((kept s).flatMap escape))).foldl _ _ = st ∧ _ ∧ _ = args ++ words (kept s)
    rw [hescape]
    refine ⟨_, rfl, ?_⟩
    generalize words (kept s) = ws at hwords
    clear hescape
    induction ws generalizing args with
    | nil =>
      refine ⟨⟨rfl, rfl, rfl⟩, ?_⟩
      show args ++ [] = args ++ []
      rfl
    | cons w ws ih =>
      obtain ⟨hne, hw⟩ := hwords w List.mem_cons_self
      have hclear : Clear ⟨args, [], false, false, false⟩ := ⟨rfl, rfl, rfl⟩
      have hrest : ∀ v ∈ ws, v ≠ [] ∧ ∀ c ∈ v, c ∉ reserved :=
        fun v hv => hwords v (List.mem_cons_of_mem w hv)
      by_cases hempty : ws = []
      · subst hempty
        have hone : joined [w] = w := by simp [joined, List.intercalate]
        rw [hone, hclear.foldl_plain hw]
        refine ⟨⟨rfl, rfl, rfl⟩, ?_⟩
        show args ++ (if w = [] then [] else [w]) = args ++ [w]
        rw [if_neg hne]
      · have htwo : joined (w :: ws) = w ++ ' ' :: joined ws := by
          have happend := Rust.joined_append (List.cons_ne_nil w []) hempty
          rw [show joined [w] = w by simp [joined, List.intercalate]] at happend
          exact happend
        have hfull : Clear ⟨args, w, false, false, false⟩ := ⟨rfl, rfl, rfl⟩
        have hfinish : Split.finish ⟨args, w, false, false, false⟩ = args ++ [w] := by
          show args ++ (if w = [] then [] else [w]) = args ++ [w]
          rw [if_neg hne]
        rw [htwo, List.foldl_append, hclear.foldl_plain hw]
        dsimp only
        rw [List.nil_append, List.foldl_cons, hfull.step_blank, hfinish]
        obtain ⟨hdone, hargs⟩ := ih (args ++ [w]) hrest
        refine ⟨hdone, ?_⟩
        rw [hargs, List.append_assoc]
        rfl

theorem foldl_items (h : ∀ item ∈ items, item.Legal) (args : List (List Char)) :
    ((joined (items.flatMap fun item => words item.stripped)).foldl Split.step
      ⟨args, [], false, false, false⟩).finish = args ++ items.flatMap Item.split := by
  induction items generalizing args with
  | nil => rfl
  | cons item items ih =>
    have hrest := ih fun item' hitem' => h item' (List.mem_cons_of_mem item hitem')
    obtain ⟨st, hst, hclear, hfinish⟩ := foldl_item (h item List.mem_cons_self) args
    rw [List.flatMap_cons, List.flatMap_cons]
    by_cases hitem : words item.stripped = []
    · rw [hitem] at hst ⊢
      obtain rfl := hst
      have hnone : item.split = [] := by
        have hempty : args = args ++ item.split := by
          rw [← hfinish]
          show args = args ++ []
          rw [List.append_nil]
        exact List.self_eq_append_right.mp hempty
      rw [List.nil_append, hrest, hnone, List.nil_append]
    · by_cases hitems : (items.flatMap fun item => words item.stripped) = []
      · have hnone : items.flatMap Item.split = [] := by
          have hempty := hrest []
          rw [hitems] at hempty
          exact hempty.symm
        rw [hitems, List.append_nil, hst, hfinish, hnone, List.append_nil]
      · rw [Rust.joined_append hitem hitems, List.foldl_append, hst, List.foldl_cons, hclear.step_blank, hrest,
          hfinish, List.append_assoc]

/-- A line is split item by item. -/
theorem exec_argv_line (h : ∀ item ∈ items, item.Legal) :
    exec_argv (line items) = items.flatMap Item.split := by
  unfold exec_argv strip_field_codes
  rw [words_strip_line, foldl_items h, List.nil_append]

/-! ## Faithful arguments -/

theorem tame_of_mem_split (h : s ∈ item.split) : Tame s := by
  cases item with
  | code c => cases h
  | plain t =>
    obtain ⟨hne, hchars⟩ := Rust.of_mem_words h
    refine ⟨hne, fun hin => percent_not_kept t (hchars _ hin).2, fun c hc hw => ?_, fun hin => ?_⟩
    · rw [(hchars c hc).1] at hw
      cases hw
    · have hblank := (hchars ' ' (hin.subset List.mem_cons_self)).1
      cases hblank
  | quoted t =>
    dsimp only [Item.split] at h
    split_ifs at h with hempty
    · cases h
    · obtain rfl := List.mem_singleton.mp h
      refine ⟨fun hnil => hempty (Rust.squeeze_eq_nil hnil), fun hin => ?_, (Rust.squeeze_spaced _).1⟩
      rcases Rust.mem_squeeze hin with h | ⟨-, h⟩
      · cases h
      · exact percent_not_kept t h

theorem kept_of_tame (h : Tame s) : kept s = s := by
  unfold kept
  rw [List.filter_eq_self]
  intro c hc
  have hne : c ≠ '%' := by
    rintro rfl
    exact h.percent hc
  simpa using hne

theorem split_of_tame (hlegal : item.Legal) (h : ∀ s ∈ item.argument, Tame s) :
    item.split = item.argument.toList := by
  cases item with
  | code c => rfl
  | plain s =>
    have htame : Tame s := h s rfl
    have hword : ∀ c ∈ s, isWhitespace c = false := by
      intro c hc
      by_contra hblank
      rw [Bool.not_eq_false] at hblank
      have hspace := htame.spaced.1 c hc hblank
      refine hlegal.2 c hc ?_
      rw [hspace]
      exact List.mem_cons_self
    show words (kept s) = [s]
    rw [kept_of_tame htame, Rust.words_eq_singleton hword htame.ne_nil]
  | quoted s =>
    have htame : Tame s := h s rfl
    show (if kept s = [] then [] else [squeeze false (kept s)]) = [s]
    rw [kept_of_tame htame, if_neg htame.ne_nil, Rust.squeeze_of_spaced htame.spaced]

/-- A line is split into the arguments it was written from just when they are tame. -/
theorem exec_argv_iff_tame (items : List Item) (h : ∀ item ∈ items, item.Legal) :
    exec_argv (line items) = arguments items ↔ ∀ s ∈ arguments items, Tame s := by
  rw [exec_argv_line h]
  constructor
  · intro heq s hs
    rw [← heq] at hs
    obtain ⟨item, -, hsplit⟩ := List.mem_flatMap.mp hs
    exact tame_of_mem_split hsplit
  · intro htame
    unfold arguments
    rw [List.filterMap_eq_flatMap_toList]
    refine List.flatMap_congr fun item hitem => split_of_tame (h item hitem) fun s hs => ?_
    exact htame s (List.mem_filterMap.mpr ⟨item, hitem, hs⟩)

/-- `app "two  words" %f` -/
theorem exec_argv_iff_tame_words :
    exec_argv (line [.plain "app".toList, .quoted "two  words".toList, .code 'f']) =
        arguments [.plain "app".toList, .quoted "two  words".toList, .code 'f'] ↔
      ∀ s ∈ arguments [.plain "app".toList, .quoted "two  words".toList, .code 'f'], Tame s :=
  exec_argv_iff_tame [.plain "app".toList, .quoted "two  words".toList, .code 'f'] (by
    intro item hitem
    simp only [List.mem_cons, List.not_mem_nil, or_false] at hitem
    rcases hitem with rfl | rfl | rfl
    · exact ⟨by simp, by simp [reserved]⟩
    · exact trivial
    · show 'f' ∈ fieldCodes
      decide)

/-- `app "100%%"` -/
theorem exec_argv_not_faithful :
    ¬ ∀ items : List Item, (∀ item ∈ items, item.Legal) → exec_argv (line items) = arguments items := by
  intro h
  have hone := h [.plain "app".toList, .quoted "100%".toList] (by
    intro item hitem
    simp only [List.mem_cons, List.not_mem_nil, or_false] at hitem
    rcases hitem with rfl | rfl
    · exact ⟨by simp, by simp [reserved]⟩
    · exact trivial)
  revert hone
  decide

end Launcher
