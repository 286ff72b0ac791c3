import Mathlib.Tactic.Ring
import VynkorPlugins.Base.Json
import VynkorPlugins.Base.Rust

/-!
# Texts and their bytes

A text is cut at a number of bytes, and its characters take one to four bytes each.
-/

namespace Rust

open String (utf8Len)

/-- The first characters of a text take that many bytes, or the whole text takes less. -/
def CutsAt (s : String) (len : Nat) : Prop :=
  s.utf8ByteSize < len ∨ ∃ kept rest, s = kept ++ rest ∧ kept.utf8ByteSize = len

variable {max : Nat} {cs : List Char}

theorem takeBytes_begins : takeBytes max cs <+: cs := by
  induction cs generalizing max with
  | nil => exact List.nil_prefix
  | cons c cs ih =>
    rw [takeBytes]
    split_ifs with hfits
    · exact (List.prefix_cons_inj c).mpr ih
    · exact List.nil_prefix

/-- As many characters are taken as fit. -/
theorem takeBytes_append {kept : List Char} (h : utf8Len kept = max) (rest : List Char) :
    takeBytes max (kept ++ rest) = kept := by
  induction kept generalizing max with
  | nil =>
    cases rest with
    | nil => rfl
    | cons c rest =>
      have hpos := c.utf8Size_pos
      rw [String.utf8Len_nil] at h
      rw [List.nil_append, takeBytes, if_neg (by omega)]
  | cons c kept ih =>
    rw [String.utf8Len_cons] at h
    rw [List.cons_append, takeBytes, if_pos (by omega), ih (by omega)]

/-! ## Numbers -/

theorem digitsNat_toDigits (n : Nat) : digitsNat (Nat.toDigits 10 n) = n :=
  Nat.ofDigitChars_ten_toDigits

theorem all_isDigit_toDigits (n : Nat) : (Nat.toDigits 10 n).all Char.isDigit = true := by
  rw [List.all_eq_true]
  exact fun c hc => Nat.isDigit_of_mem_toDigits (by decide) (by decide) hc

theorem digitsNat_lt {digits : List Char} (h : ∀ c ∈ digits, c.isDigit = true) :
    digitsNat digits < 10 ^ digits.length := by
  have hfold : ∀ n, digits.foldl (fun n c => 10 * n + (c.toNat - 48)) n <
      (n + 1) * 10 ^ digits.length := by
    induction digits with
    | nil => intro n; simp
    | cons c digits ih =>
      intro n
      have hdigit := h c List.mem_cons_self
      rw [Char.isDigit_iff_toNat, show '0'.toNat = 48 from rfl, show '9'.toNat = 57 from rfl] at hdigit
      have hlt := ih (fun c hc => h c (List.mem_cons_of_mem _ hc)) (10 * n + (c.toNat - 48))
      have hle : (10 * n + (c.toNat - 48) + 1) * 10 ^ digits.length ≤
          (10 * (n + 1)) * 10 ^ digits.length := Nat.mul_le_mul_right _ (by omega)
      rw [List.foldl_cons, List.length_cons, Nat.pow_succ]
      calc _ < _ := hlt
        _ ≤ _ := hle
        _ = (n + 1) * (10 ^ digits.length * 10) := by ring
  have hlt := hfold 0
  rw [Nat.zero_add, Nat.one_mul] at hlt
  exact hlt

/-- A number is read from its digits. -/
theorem parseI64_toDigits {n : Nat} (hn : n < 2 ^ 63) :
    parseI64 (Nat.toDigits 10 n) = some (Int64.ofInt n) := by
  obtain ⟨c, ds, hds⟩ := List.exists_cons_of_ne_nil (Nat.toDigits_ne_nil (n := n) (b := 10))
  have hdigit : c.isDigit = true := by
    refine Nat.isDigit_of_mem_toDigits (b := 10) (n := n) (by decide) (by decide) ?_
    rw [hds]
    exact List.mem_cons_self
  have hall := all_isDigit_toDigits n
  have hvalue := digitsNat_toDigits n
  rw [hds] at hall hvalue ⊢
  unfold parseI64
  split
  rename_i neg digits hsign
  split at hsign
  · rename_i heq
    obtain ⟨rfl, -⟩ := List.cons.inj heq
    cases hdigit
  · rename_i heq
    obtain ⟨rfl, -⟩ := List.cons.inj heq
    cases hdigit
  · obtain ⟨rfl, rfl⟩ := Prod.mk.inj hsign
    rw [hall, hvalue]
    have hrange : (-2 ^ 63 : Int) ≤ n ∧ (n : Int) < 2 ^ 63 := by omega
    simp only [List.isEmpty_cons, Bool.not_true, Bool.or_self, Bool.false_eq_true, if_false,
      if_pos hrange]

/-- A negative number is read from its sign and its digits. -/
theorem parseI64_minus {n : Nat} (hn : n ≤ 2 ^ 63) :
    parseI64 ('-' :: Nat.toDigits 10 n) = some (Int64.ofInt (-n)) := by
  have hrange : (-2 ^ 63 : Int) ≤ -(n : Int) ∧ -(n : Int) < 2 ^ 63 := by omega
  have hempty : (Nat.toDigits 10 n).isEmpty = false := by
    rw [List.isEmpty_eq_false_iff]
    exact Nat.toDigits_ne_nil
  simp only [parseI64, all_isDigit_toDigits, hempty, digitsNat_toDigits, Bool.not_true,
    Bool.or_self, Bool.false_eq_true, if_true, if_false, if_pos hrange]

/-- An `i64` is read from the text it is written as. -/
theorem parseI64_intChars {n : Int} (hlo : -2 ^ 63 ≤ n) (hhi : n < 2 ^ 63) :
    parseI64 (Json.intChars n) = some (Int64.ofInt n) := by
  cases n with
  | ofNat n =>
    rw [Int.ofNat_eq_natCast] at hhi
    exact parseI64_toDigits (by omega)
  | negSucc n => exact parseI64_minus (by omega)

variable {s kept : String} {len : Nat}

theorem of_truncate (h : truncate s len = some kept) :
    kept.toList <+: s.toList ∧ kept.utf8ByteSize ≤ len := by
  unfold truncate at h
  split_ifs at h with hshort
  · obtain rfl := Option.some.inj h
    exact ⟨List.prefix_rfl, by omega⟩
  · dsimp only at h
    split_ifs at h with hcut
    obtain rfl := Option.some.inj h
    rw [String.toList_ofList]
    exact ⟨takeBytes_begins, by omega⟩

/-- A text is truncated where no character is in the way. -/
theorem truncate_isSome_iff : (truncate s len).isSome = true ↔ CutsAt s len := by
  unfold truncate CutsAt
  by_cases hshort : s.utf8ByteSize < len
  · simp [hshort]
  · rw [if_neg hshort]
    constructor
    · intro h
      dsimp only at h
      split_ifs at h with hcut
      swap
      · cases h
      have hbegins : takeBytes len s.toList <+: s.toList := takeBytes_begins
      obtain ⟨rest, hrest⟩ := hbegins
      refine .inr ⟨String.ofList (takeBytes len s.toList), String.ofList rest, ?_, hcut⟩
      rw [← String.ofList_append, hrest, String.ofList_toList]
    · rintro (h | ⟨kept, rest, rfl, hlen⟩)
      · exact absurd h hshort
      · have hkept : takeBytes len (kept ++ rest).toList = kept.toList := by
          rw [String.toList_append]
          refine takeBytes_append ?_ rest.toList
          rw [← String.utf8ByteSize_ofList, String.ofList_toList, hlen]
        rw [hkept, String.ofList_toList, if_pos hlen]
        rfl

/-! ## Slices -/

/-- A text is cut after a number of bytes, unless that is inside a character or behind the end. -/
def splitBytes : Nat → List Char → Option (List Char × List Char)
  | 0, cs => some ([], cs)
  | _ + 1, [] => none
  | n + 1, c :: cs =>
    if c.utf8Size ≤ n + 1 then (splitBytes (n + 1 - c.utf8Size) cs).map fun p => (c :: p.1, p.2) else none

/-- `&s[start..stop]`, which may panic. -/
def slice (s : List Char) (start stop : Nat) : Option (List Char) := do
  if stop < start then none
  let (_, rest) ← splitBytes start s
  let (cut, _) ← splitBytes (stop - start) rest
  return cut

theorem splitBytes_eq_some {n : Nat} {a b : List Char} :
    splitBytes n cs = some (a, b) ↔ cs = a ++ b ∧ utf8Len a = n := by
  induction cs generalizing n a b with
  | nil =>
    cases n with
    | zero =>
      rw [splitBytes, Option.some.injEq, Prod.mk.injEq]
      constructor
      · rintro ⟨rfl, rfl⟩
        exact ⟨rfl, rfl⟩
      · rintro ⟨h, -⟩
        obtain ⟨rfl, rfl⟩ := List.append_eq_nil_iff.mp h.symm
        exact ⟨rfl, rfl⟩
    | succ n =>
      rw [splitBytes]
      constructor
      · exact fun h => (nomatch h)
      · rintro ⟨h, hlen⟩
        obtain ⟨rfl, rfl⟩ := List.append_eq_nil_iff.mp h.symm
        cases hlen
  | cons c cs ih =>
    have hpos := c.utf8Size_pos
    cases n with
    | zero =>
      rw [splitBytes, Option.some.injEq, Prod.mk.injEq]
      constructor
      · rintro ⟨rfl, rfl⟩
        exact ⟨rfl, rfl⟩
      · rintro ⟨h, hlen⟩
        cases a with
        | nil => exact ⟨rfl, h⟩
        | cons d a =>
          have hpos' := d.utf8Size_pos
          rw [String.utf8Len_cons] at hlen
          omega
    | succ n =>
      rw [splitBytes]
      constructor
      · intro h
        split_ifs at h with hfits
        obtain ⟨⟨a', b'⟩, hrest, heq⟩ := Option.map_eq_some_iff.mp h
        obtain ⟨rfl, rfl⟩ := Prod.mk.inj heq
        obtain ⟨rfl, hlen⟩ := ih.mp hrest
        refine ⟨rfl, ?_⟩
        show utf8Len (c :: a') = n + 1
        rw [String.utf8Len_cons]
        omega
      · rintro ⟨h, hlen⟩
        cases a with
        | nil => cases hlen
        | cons d a =>
          obtain ⟨rfl, rfl⟩ := List.cons.inj h
          rw [String.utf8Len_cons] at hlen
          rw [if_pos (by omega), ih.mpr ⟨rfl, by omega⟩]
          rfl

/-- A text of one-byte characters has as many bytes as characters. -/
theorem utf8Len_of_small (h : ∀ c ∈ cs, c.utf8Size = 1) : utf8Len cs = cs.length := by
  induction cs with
  | nil => rfl
  | cons c cs ih =>
    rw [String.utf8Len_cons, h c List.mem_cons_self, ih fun d hd => h d (List.mem_cons_of_mem c hd)]
    rfl

theorem length_le_utf8Len (cs : List Char) : cs.length ≤ utf8Len cs := by
  induction cs with
  | nil => exact le_refl 0
  | cons c cs ih =>
    have hpos := c.utf8Size_pos
    rw [String.utf8Len_cons, List.length_cons]
    omega

/-! ## Lines -/

/-- Lines as they are written, each with its end. -/
def written (lines : List (List Char)) : List Char :=
  lines.flatMap fun line => line ++ ['\r', '\n']

theorem written_cons (line : List Char) (rest : List (List Char)) :
    written (line :: rest) = line ++ '\r' :: '\n' :: written rest := by
  unfold written
  rw [List.flatMap_cons, List.append_assoc]
  rfl

theorem splitOnP_written {ls : List (List Char)} (h : ∀ line ∈ ls, '\n' ∉ line) :
    (written ls).splitOnP (· = '\n') = (ls.map fun line => line ++ ['\r']) ++ [[]] := by
  induction ls with
  | nil => rfl
  | cons line ls ih =>
    have hline : ∀ ch ∈ line ++ ['\r'], decide (ch = '\n') = false := by
      intro ch hch
      rw [decide_eq_false_iff_not]
      rintro rfl
      rcases List.mem_append.mp hch with hch | hch
      · exact h line List.mem_cons_self hch
      · simp at hch
    have hsplit : written (line :: ls) = (line ++ ['\r']) ++ '\n' :: written ls := by
      rw [written_cons, List.append_assoc]
      rfl
    rw [hsplit, List.splitOnP_append_cons_of_forall_mem hline '\n' (by simp),
      ih fun line' hline' => h line' (List.mem_cons_of_mem line hline')]
    rfl

/-- The lines that were written are read again. -/
theorem lines_written {ls : List (List Char)} (h : ∀ line ∈ ls, '\n' ∉ line) :
    lines (written ls) = ls := by
  unfold lines
  rw [splitOnP_written h]
  dsimp only
  rw [List.dropLast_concat, List.getLast?_concat]
  dsimp only
  rw [List.map_map]
  conv_rhs => rw [← List.map_id ls]
  refine List.map_congr_left fun line _ => ?_
  show (if (line ++ ['\r']).getLast? = some '\r' then (line ++ ['\r']).dropLast else _) = line
  rw [List.getLast?_concat, if_pos rfl, List.dropLast_concat]

/-! ## Words -/

/-- `split_whitespace` -/
def words (cs : List Char) : List (List Char) :=
  (cs.splitOnP isWhitespace).filter fun w => !w.isEmpty

/-- Words with a space between any two. -/
def joined (ws : List (List Char)) : List Char := [' '].intercalate ws

/-- A text with each run of white space as one space, but for what begins it if that goes on with a run. -/
def squeeze : Bool → List Char → List Char
  | _, [] => []
  | run, c :: cs =>
    if isWhitespace c then if run then squeeze true cs else ' ' :: squeeze true cs
    else c :: squeeze false cs

/-- All white space is single spaces. -/
def Spaced (cs : List Char) : Prop :=
  (∀ c ∈ cs, isWhitespace c = true → c = ' ') ∧ ¬ [' ', ' '] <:+: cs

variable {ws : List (List Char)} {w t : List Char} {c : Char}

theorem words_append (a b : List Char) (hc : isWhitespace c = true) :
    words (a ++ c :: b) = words a ++ words b := by
  unfold words
  rw [List.splitOnP_append_cons a b hc, List.filter_append]

theorem words_cons (b : List Char) (hc : isWhitespace c = true) : words (c :: b) = words b :=
  words_append [] b hc

theorem words_eq_singleton (h : ∀ c ∈ w, isWhitespace c = false) (hne : w ≠ []) : words w = [w] := by
  unfold words
  rw [List.splitOnP_eq_singleton h]
  simp [hne]

/-- The first piece of a text goes on with a character that is no white space. -/
theorem splitOnP_cons_word (hc : isWhitespace c = false) (t : List Char) :
    ∃ u us, t.splitOnP isWhitespace = u :: us ∧ (c :: t).splitOnP isWhitespace = (c :: u) :: us := by
  obtain ⟨u, us, hus⟩ := List.exists_cons_of_ne_nil (List.splitOnP_ne_nil isWhitespace t)
  refine ⟨u, us, hus, ?_⟩
  rw [List.splitOnP_cons_eq_if_modifyHead, hc, hus]
  rfl

theorem words_ne_nil (hmem : c ∈ t) (hc : isWhitespace c = false) : words t ≠ [] := by
  induction t with
  | nil => cases hmem
  | cons d t ih =>
    by_cases hd : isWhitespace d = true
    · rw [words_cons t hd]
      refine ih (List.mem_of_ne_of_mem ?_ hmem)
      rintro rfl
      rw [hc] at hd
      cases hd
    · rw [Bool.not_eq_true] at hd
      obtain ⟨u, us, -, hcons⟩ := splitOnP_cons_word hd t
      unfold words
      rw [hcons]
      simp

/-- A word has no white space, and its characters are characters of the text. -/
theorem of_mem_words (h : w ∈ words t) : w ≠ [] ∧ ∀ c ∈ w, isWhitespace c = false ∧ c ∈ t := by
  induction t generalizing w with
  | nil => simp [words] at h
  | cons d t ih =>
    by_cases hd : isWhitespace d = true
    · rw [words_cons t hd] at h
      obtain ⟨hne, hchars⟩ := ih h
      exact ⟨hne, fun c hc => ⟨(hchars c hc).1, List.mem_cons_of_mem d (hchars c hc).2⟩⟩
    · rw [Bool.not_eq_true] at hd
      obtain ⟨u, us, hus, hcons⟩ := splitOnP_cons_word hd t
      have hu : ∀ c ∈ u, isWhitespace c = false ∧ c ∈ t := by
        by_cases hempty : u = []
        · simp [hempty]
        · have hmem : u ∈ words t := by
            unfold words
            rw [hus]
            simp [hempty]
          exact (ih hmem).2
      have hmem : w ∈ (d :: u) :: us ∧ w ≠ [] := by
        unfold words at h
        rw [hcons] at h
        obtain ⟨hin, hne⟩ := List.mem_filter.mp h
        exact ⟨hin, by simpa using hne⟩
      refine ⟨hmem.2, fun c hc => ?_⟩
      rcases List.mem_cons.mp hmem.1 with rfl | hin
      · rcases List.mem_cons.mp hc with rfl | hc
        · exact ⟨hd, List.mem_cons_self⟩
        · exact ⟨(hu c hc).1, List.mem_cons_of_mem d (hu c hc).2⟩
      · have hmem' : w ∈ words t := by
          unfold words
          rw [hus]
          exact List.mem_filter.mpr ⟨List.mem_cons_of_mem u hin, by simp [hmem.2]⟩
        exact ⟨((ih hmem').2 c hc).1, List.mem_cons_of_mem d ((ih hmem').2 c hc).2⟩

theorem joined_append {vs : List (List Char)} (hws : ws ≠ []) (hvs : vs ≠ []) :
    joined (ws ++ vs) = joined ws ++ ' ' :: joined vs := by
  unfold joined
  induction ws with
  | nil => exact absurd rfl hws
  | cons w ws ih =>
    cases ws with
    | nil =>
      rw [List.singleton_append, List.intercalate_cons_of_ne_nil hvs, List.append_assoc]
      simp [List.intercalate]
    | cons w' ws =>
      rw [List.cons_append, List.intercalate_cons_of_ne_nil (by simp), ih (List.cons_ne_nil w' ws),
        List.intercalate_cons_of_ne_nil (List.cons_ne_nil w' ws)]
      simp

@[simp] theorem squeeze_nil (run : Bool) : squeeze run [] = [] := rfl

theorem squeeze_cons (run : Bool) (c : Char) (t : List Char) :
    squeeze run (c :: t) =
      if isWhitespace c then if run then squeeze true t else ' ' :: squeeze true t
      else c :: squeeze false t := rfl

/-- What follows a word, up to a last character that is no white space, is squeezed. -/
theorem joined_words (hlast : ∀ c ∈ t.getLast?, isWhitespace c = false) :
    joined (words t) = squeeze true t ∧
      ∀ w, w ≠ [] → (∀ c ∈ w, isWhitespace c = false) → joined (words (w ++ t)) = w ++ squeeze false t := by
  induction t with
  | nil =>
    refine ⟨rfl, fun w hne hw => ?_⟩
    rw [List.append_nil, words_eq_singleton hw hne]
    simp [joined, List.intercalate]
  | cons c t ih =>
    have htail : ∀ d ∈ t.getLast?, isWhitespace d = false := by
      intro d hd
      refine hlast d ?_
      cases t with
      | nil => cases hd
      | cons e t => simpa using hd
    obtain ⟨hrun, hword⟩ := ih htail
    by_cases hc : isWhitespace c = true
    · refine ⟨?_, fun w hne hw => ?_⟩
      · rw [words_cons t hc, hrun, squeeze_cons, if_pos hc, if_pos rfl]
      · have hne' : words t ≠ [] := by
          cases t with
          | nil =>
            have hno := hlast c rfl
            rw [hc] at hno
            cases hno
          | cons d t =>
            have hin := List.getLast?_eq_some_getLast (List.cons_ne_nil d t)
            exact words_ne_nil (List.mem_of_getLast? hin) (htail _ hin)
        rw [words_append w t hc, joined_append (by simp [words_eq_singleton hw hne]) hne',
          words_eq_singleton hw hne, hrun, squeeze_cons, if_pos hc, if_neg Bool.false_ne_true]
        simp [joined, List.intercalate]
    · rw [Bool.not_eq_true] at hc
      refine ⟨?_, fun w hne hw => ?_⟩
      · have hone := hword [c] (by simp) (by simpa using hc)
        rw [List.singleton_append] at hone
        rw [hone, squeeze_cons, hc]
        rfl
      · have hsnoc := hword (w ++ [c]) (by simp) (by
          intro d hd
          rcases List.mem_append.mp hd with hd | hd
          · exact hw d hd
          · rw [List.mem_singleton.mp hd]
            exact hc)
        rw [List.append_assoc, List.singleton_append] at hsnoc
        rw [hsnoc, squeeze_cons, hc, List.append_assoc]
        rfl

theorem squeeze_concat (run : Bool) (t : List Char) (hc : isWhitespace c = false) :
    squeeze run (t ++ [c]) = squeeze run t ++ [c] := by
  induction t generalizing run with
  | nil =>
    simp [squeeze_cons, hc]
  | cons d t ih =>
    rw [List.cons_append, squeeze_cons, squeeze_cons, ih, ih]
    split_ifs
    · rfl
    · rfl
    · rfl

theorem mem_squeeze {run : Bool} (h : c ∈ squeeze run t) : c = ' ' ∨ (isWhitespace c = false ∧ c ∈ t) := by
  induction t generalizing run with
  | nil => cases h
  | cons d t ih =>
    rw [squeeze_cons] at h
    split_ifs at h with hd hrun
    · exact (ih h).imp_right fun h => ⟨h.1, List.mem_cons_of_mem d h.2⟩
    · rcases List.mem_cons.mp h with h | h
      · exact .inl h
      · exact (ih h).imp_right fun h => ⟨h.1, List.mem_cons_of_mem d h.2⟩
    · rcases List.mem_cons.mp h with rfl | h
      · rw [Bool.not_eq_true] at hd
        exact .inr ⟨hd, List.mem_cons_self⟩
      · exact (ih h).imp_right fun h => ⟨h.1, List.mem_cons_of_mem d h.2⟩

/-- After a squeezed run no space follows. -/
theorem squeeze_spaced (t : List Char) :
    Spaced (squeeze false t) ∧ Spaced (squeeze true t) ∧ (squeeze true t).head? ≠ some ' ' := by
  have hblank : ∀ run, ∀ c ∈ squeeze run t, isWhitespace c = true → c = ' ' := by
    intro run c hc hw
    rcases mem_squeeze hc with h | ⟨h, -⟩
    · exact h
    · rw [hw] at h
      cases h
  have hruns : ¬ [' ', ' '] <:+: squeeze false t ∧ ¬ [' ', ' '] <:+: squeeze true t ∧
      (squeeze true t).head? ≠ some ' ' := by
    clear hblank
    induction t with
    | nil => simp
    | cons d t ih =>
      obtain ⟨hfalse, htrue, hhead⟩ := ih
      by_cases hd : isWhitespace d = true
      · simp only [squeeze_cons, if_pos hd, Bool.false_eq_true, if_false, if_true]
        refine ⟨?_, htrue, hhead⟩
        rw [List.infix_cons_iff, List.cons_prefix_cons]
        rintro (⟨-, h⟩ | h)
        · obtain ⟨rest, hrest⟩ := h
          exact hhead (by rw [← hrest]; rfl)
        · exact htrue h
      · have hne : d ≠ ' ' := by
          rintro rfl
          exact hd rfl
        simp only [squeeze_cons, if_neg hd]
        have hno : ¬ [' ', ' '] <:+: d :: squeeze false t := by
          rw [List.infix_cons_iff, List.cons_prefix_cons]
          rintro (⟨h, -⟩ | h)
          · exact hne h.symm
          · exact hfalse h
        exact ⟨hno, hno, by simpa using hne⟩
  exact ⟨⟨hblank false, hruns.1⟩, ⟨hblank true, hruns.2.1⟩, hruns.2.2⟩

theorem squeeze_of_spaced (h : Spaced t) : squeeze false t = t := by
  have hboth : squeeze false t = t ∧ (t.head? ≠ some ' ' → squeeze true t = t) := by
    induction t with
    | nil => exact ⟨rfl, fun _ => rfl⟩
    | cons d t ih =>
      obtain ⟨hblank, hruns⟩ := h
      rw [List.infix_cons_iff, not_or] at hruns
      obtain ⟨hfalse, htrue⟩ := ih ⟨fun c hc => hblank c (List.mem_cons_of_mem d hc), hruns.2⟩
      by_cases hd : isWhitespace d = true
      · obtain rfl := hblank d List.mem_cons_self hd
        have hhead : t.head? ≠ some ' ' := by
          intro hhead
          cases t with
          | nil => cases hhead
          | cons e t =>
            obtain rfl := Option.some.inj hhead
            exact hruns.1 ⟨t, rfl⟩
        simp only [squeeze_cons, if_pos hd, Bool.false_eq_true, if_false]
        exact ⟨congrArg _ (htrue hhead), fun h => absurd rfl h⟩
      · simp only [squeeze_cons, if_neg hd]
        exact ⟨congrArg _ hfalse, fun _ => congrArg _ hfalse⟩
  exact hboth.1

theorem squeeze_eq_nil (h : squeeze false t = []) : t = [] := by
  cases t with
  | nil => rfl
  | cons d t =>
    rw [squeeze_cons] at h
    by_cases hd : isWhitespace d = true
    · rw [if_pos hd, if_neg Bool.false_ne_true] at h
      cases h
    · rw [if_neg hd] at h
      cases h

/-! ## Bytes -/

/-- The bytes of a text. -/
def utf8 (s : String) : List UInt8 :=
  s.toList.flatMap String.utf8EncodeChar

/-- The only character with an ASCII byte is the one that the byte stands for. -/
theorem mem_utf8EncodeChar {b : UInt8} (hb : b.toNat < 128) {c : Char} :
    b ∈ String.utf8EncodeChar c ↔ c.toNat = b.toNat := by
  unfold String.utf8EncodeChar
  dsimp only
  have hc : c.val.toNat = c.toNat := rfl
  rw [hc]
  split_ifs <;> simp [← UInt8.toNat_inj] <;> omega

/-! ## Decoding -/

/-- The byte goes on a character. -/
def isContinuation (b : UInt8) : Bool := 0x80 ≤ b && b ≤ 0xBF

/-- The byte may follow the first byte of a character of three or four bytes. -/
def isSecond (first b : UInt8) : Bool :=
  if first = 0xE0 then 0xA0 ≤ b && b ≤ 0xBF
  else if first = 0xED then 0x80 ≤ b && b ≤ 0x9F
  else if first = 0xF0 then 0x90 ≤ b && b ≤ 0xBF
  else if first = 0xF4 then 0x80 ≤ b && b ≤ 0x8F
  else 0xE1 ≤ first && first ≤ 0xF3 && isContinuation b

/-- How many bytes one replacement character stands for: those with which a character could begin. -/
def invalidLength (first : UInt8) (rest : List UInt8) : Nat :=
  if isSecond first (rest.getD 0 0) then
    if 0xF0 ≤ first && isContinuation (rest.getD 1 0) then 3 else 2
  else 1

/-- `String::from_utf8_lossy` -/
def from_utf8_lossy : List UInt8 → List Char
  | [] => []
  | first :: rest =>
    match (first :: rest).toByteArray.utf8DecodeChar? 0 with
    | some c => c :: from_utf8_lossy (rest.drop (c.utf8Size - 1))
    | none => '\uFFFD' :: from_utf8_lossy (rest.drop (invalidLength first rest - 1))
termination_by bytes => bytes.length
decreasing_by
  all_goals
    simp only [List.length_drop, List.length_cons]
    omega

@[simp] theorem lossy_nil : from_utf8_lossy [] = [] := by
  rw [from_utf8_lossy]

theorem lossy_char (c : Char) (rest : List UInt8) :
    from_utf8_lossy (String.utf8EncodeChar c ++ rest) = c :: from_utf8_lossy rest := by
  have hdecode := ByteArray.utf8DecodeChar?_utf8EncodeChar_append (b := rest.toByteArray) (c := c)
  rw [← List.toByteArray_append] at hdecode
  have hlen : (String.utf8EncodeChar c).length = c.utf8Size := String.length_utf8EncodeChar c
  have hpos := c.utf8Size_pos
  cases hbytes : String.utf8EncodeChar c with
  | nil =>
    rw [hbytes, List.length_nil] at hlen
    omega
  | cons first others =>
    rw [hbytes, List.cons_append] at hdecode
    rw [hbytes, List.length_cons] at hlen
    rw [List.cons_append, from_utf8_lossy, hdecode]
    dsimp only
    rw [List.drop_left' (by omega)]

/-- Text is read as it is. -/
theorem lossy_text (cs : List Char) : from_utf8_lossy (cs.flatMap String.utf8EncodeChar) = cs := by
  induction cs with
  | nil => rw [List.flatMap_nil, lossy_nil]
  | cons c cs ih => rw [List.flatMap_cons, lossy_char, ih]
end Rust
