import Mathlib
import VynkorPlugins.Base.Text
import VynkorPlugins.Hotkey.Bindings

/-!
# Which normalized triggers are canonical

Which triggers are left as they are when they are normalized again, and which two triggers for the same
modifiers and key become one.
-/

namespace Hotkey

/-! ## What a trigger names -/

/-- The modifiers that a trigger names. -/
def named (s : String) : List Modifier := (parts s).filterMap modifier

/-- The parts that are no modifiers. -/
def keys (s : String) : List String := (parts s).filter fun part => modifier part = none

def keepFirst (kept : List Modifier) (m : Modifier) : List Modifier :=
  if m ∈ kept then kept else kept ++ [m]

/-- Each modifier where it is named first. -/
def firsts (ms : List Modifier) : List Modifier := ms.foldl keepFirst []

/-- How the letters of a key are compared. -/
def spelling (key : String) : String := lowered [' ', '-', '/'] (Rust.trim key)

def functionNumber (key : String) : Option Nat := function_key (spelling key)

/-- The same keysym, or a function key of the same number. -/
def SameKey (a b : String) : Prop :=
  normalize_key a = normalize_key b ∨ functionNumber a ≠ none ∧ functionNumber a = functionNumber b

/-- The two triggers name the same modifiers and the same key. -/
def SameNames (s t : String) : Prop :=
  (∀ m, m ∈ named s ↔ m ∈ named t) ∧ ∀ a ∈ keys s, ∀ b ∈ keys t, SameKey a b

/-- They name their modifiers in the same order, and a function key by the same digits. -/
def SameWriting (s t : String) : Prop :=
  firsts (named s) = firsts (named t) ∧
    ∀ a ∈ keys s, ∀ b ∈ keys t, functionNumber a ≠ none → functionNumber b ≠ none → spelling a = spelling b

/-- Keys with a keysym that is no key name. -/
def unread : List String :=
  ["pageup", "pagedown", "volumeup", "volumedown", "volumemute", "mute", "medianext", "medianexttrack", "mediaprev",
    "mediaprevioustrack", "mediaplaypause", "printscreen"]

/-- The key is no punctuation mark, none of those keys, and not of the numpad. -/
def StableKey (key : String) : Prop :=
  punctuation.lookup (Rust.trim key) = none ∧ spelling key ∉ unread ∧ numpad_key (spelling key) = none

def Stable (s : String) : Prop := ∀ key ∈ keys s, StableKey key

/-- The portal form of modifiers and a keysym. -/
def spelled (ms : List Modifier) (k : String) : String :=
  String.intercalate "+" (ms.map Modifier.name) ++ "+" ++ k

/-! ## The parts of a trigger -/

variable {s t r k key raw : String} {ps : List String} {ms ms' : List Modifier} {found : Option String}

theorem foldlM_after_key :
    ps.foldlM (add_part raw) (ms, some k) = .ok (ms', found) ↔
      ps.filter (fun p => modifier p = none) = [] ∧ (ps.filterMap modifier).foldl keepFirst ms = ms' ∧
        found = some k := by
  induction ps generalizing ms with
  | nil => simp [eq_comm, pure, Except.pure]
  | cons p ps ih =>
    rw [List.foldlM_cons, Rust.bind_eq_ok]
    cases hp : modifier p with
    | some m =>
      have hadd : add_part raw (ms, some k) p = .ok (keepFirst ms m, some k) := by simp [add_part, hp, keepFirst]
      rw [List.filterMap_cons_some hp, List.filter_cons_of_neg (by simp [hp]), List.foldl_cons, ← ih]
      constructor
      · rintro ⟨_, hok, h⟩
        obtain rfl := Except.ok.inj (hadd.symm.trans hok)
        exact h
      · exact fun h => ⟨_, hadd, h⟩
    | none =>
      rw [List.filter_cons_of_pos (by simp [hp])]
      refine iff_of_false ?_ fun h => nomatch h.1
      rintro ⟨_, hadd, -⟩
      simp only [add_part, hp] at hadd
      obtain ⟨_, -, hadd⟩ := Rust.bind_eq_ok.mp hadd
      simp at hadd

/-- What is read of some parts. -/
theorem foldlM_parts :
    ps.foldlM (add_part raw) (ms, none) = .ok (ms', found) ↔
      (ps.filterMap modifier).foldl keepFirst ms = ms' ∧
        ((ps.filter (fun p => modifier p = none) = [] ∧ found = none) ∨
          ∃ key k, ps.filter (fun p => modifier p = none) = [key] ∧ normalize_key key = .ok k ∧ found = some k) := by
  induction ps generalizing ms with
  | nil => simp [eq_comm, pure, Except.pure]
  | cons p ps ih =>
    rw [List.foldlM_cons, Rust.bind_eq_ok]
    cases hp : modifier p with
    | some m =>
      have hadd : add_part raw (ms, none) p = .ok (keepFirst ms m, none) := by simp [add_part, hp, keepFirst]
      rw [List.filterMap_cons_some hp, List.filter_cons_of_neg (by simp [hp]), List.foldl_cons, ← ih]
      constructor
      · rintro ⟨_, hok, h⟩
        obtain rfl := Except.ok.inj (hadd.symm.trans hok)
        exact h
      · exact fun h => ⟨_, hadd, h⟩
    | none =>
      rw [List.filterMap_cons_none hp, List.filter_cons_of_pos (by simp [hp])]
      constructor
      · rintro ⟨_, hadd, h⟩
        simp only [add_part, hp] at hadd
        obtain ⟨k, hk, hadd⟩ := Rust.bind_eq_ok.mp hadd
        obtain rfl : (ms, some k) = _ := by simpa using hadd
        obtain ⟨hnil, hms, hfound⟩ := foldlM_after_key.mp h
        exact ⟨hms, .inr ⟨p, k, by rw [hnil], hk, hfound⟩⟩
      · rintro ⟨hms, ⟨hnil, -⟩ | ⟨key, k, hkeys, hk, hfound⟩⟩
        · cases hnil
        · obtain ⟨rfl, hnil⟩ := List.cons.inj hkeys
          refine ⟨(ms, some k), ?_, foldlM_after_key.mpr ⟨hnil, hms, hfound⟩⟩
          simp only [add_part, hp, hk]
          rfl

theorem mem_foldl_keepFirst {kept : List Modifier} {m : Modifier} :
    m ∈ ms.foldl keepFirst kept ↔ m ∈ kept ∨ m ∈ ms := by
  induction ms generalizing kept with
  | nil => simp
  | cons a ms ih =>
    rw [List.foldl_cons, ih, List.mem_cons]
    unfold keepFirst
    split_ifs with ha
    · constructor
      · rintro (h | h)
        · exact .inl h
        · exact .inr (.inr h)
      · rintro (h | rfl | h)
        · exact .inl h
        · exact .inl ha
        · exact .inr h
    · rw [List.mem_append, List.mem_singleton, or_assoc]

theorem mem_firsts {m : Modifier} : m ∈ firsts ms ↔ m ∈ ms := by
  unfold firsts
  rw [mem_foldl_keepFirst]
  simp

theorem firsts_eq_nil : firsts ms = [] ↔ ms = [] := by
  rw [List.eq_nil_iff_forall_not_mem, List.eq_nil_iff_forall_not_mem]
  exact forall_congr' fun m => mem_firsts.not

theorem nodup_foldl_keepFirst {kept : List Modifier} (h : kept.Nodup) : (ms.foldl keepFirst kept).Nodup := by
  induction ms generalizing kept with
  | nil => exact h
  | cons a ms ih =>
    rw [List.foldl_cons]
    apply ih
    unfold keepFirst
    split_ifs with ha
    · exact h
    · refine h.append (List.nodup_singleton a) ?_
      intro b hb hba
      obtain rfl := List.mem_singleton.mp hba
      exact ha hb

theorem nodup_firsts (ms : List Modifier) : (firsts ms).Nodup := nodup_foldl_keepFirst List.nodup_nil

theorem foldl_keepFirst_of_nodup {kept : List Modifier} (h : (kept ++ ms).Nodup) :
    ms.foldl keepFirst kept = kept ++ ms := by
  induction ms generalizing kept with
  | nil => simp
  | cons a ms ih =>
    have ha : a ∉ kept := by
      intro hmem
      exact (List.nodup_append.mp h).2.2 a hmem a List.mem_cons_self rfl
    have hstep : keepFirst kept a = kept ++ [a] := if_neg ha
    rw [List.foldl_cons, hstep, ih (by simpa using h), List.append_assoc]
    rfl

theorem firsts_of_nodup (h : ms.Nodup) : firsts ms = ms := by
  unfold firsts
  rw [foldl_keepFirst_of_nodup (by simpa using h)]
  rfl

/-- A trigger is accepted with one key and some modifier, each of which is written where it is named first. -/
theorem normalize_trigger_eq_ok :
    normalize_trigger s = .ok r ↔
      ∃ key k, keys s = [key] ∧ normalize_key key = .ok k ∧ named s ≠ [] ∧ r = spelled (firsts (named s)) k := by
  unfold normalize_trigger
  rw [Rust.bind_eq_ok]
  constructor
  · rintro ⟨⟨ms, found⟩, hfold, h⟩
    obtain ⟨hms, ⟨-, rfl⟩ | ⟨key, k, hkey, hk, rfl⟩⟩ := foldlM_parts.1 hfold
    · cases h
    · refine ⟨key, k, hkey, hk, ?_⟩
      cases ms with
      | nil => cases h
      | cons m ms =>
        obtain rfl := Except.ok.inj h
        have hfirsts : firsts (named s) = m :: ms := hms
        refine ⟨fun hnil => ?_, by rw [hfirsts]; rfl⟩
        rw [firsts_eq_nil.mpr hnil] at hfirsts
        cases hfirsts
  · rintro ⟨key, k, hkey, hk, hne, rfl⟩
    refine ⟨(firsts (named s), some k), foldlM_parts.2 ⟨rfl, .inr ⟨key, k, hkey, hk, rfl⟩⟩, ?_⟩
    cases hfirsts : firsts (named s) with
    | nil => exact absurd (firsts_eq_nil.mp hfirsts) hne
    | cons m ms => rfl

/-! ## Keysyms -/

/-- The text is one part of a trigger, and no modifier. -/
structure Clean (k : String) : Prop where
  plus : '+' ∉ k.toList
  trimmed : Rust.trim k = k
  nonempty : k ≠ ""
  noModifier : modifier k = none

instance (k : String) : Decidable (Clean k) :=
  decidable_of_iff ('+' ∉ k.toList ∧ Rust.trim k = k ∧ k ≠ "" ∧ modifier k = none)
    ⟨fun ⟨hplus, htrimmed, hne, hmodifier⟩ => ⟨hplus, htrimmed, hne, hmodifier⟩,
      fun ⟨hplus, htrimmed, hne, hmodifier⟩ => ⟨hplus, htrimmed, hne, hmodifier⟩⟩

/-- Each letter and each digit is its own keysym. -/
def letters : List String :=
  ["a", "b", "c", "d", "e", "f", "g", "h", "i", "j", "k", "l", "m", "n", "o", "p", "q", "r", "s", "t", "u", "v", "w",
    "x", "y", "z", "0", "1", "2", "3", "4", "5", "6", "7", "8", "9"]

-- each entry of a table is evaluated for itself
theorem punctuation_keysyms : ∀ p ∈ punctuation, Clean p.2 ∧ normalize_key p.2 ≠ .ok p.2 := by
  unfold punctuation
  repeat refine List.forall_mem_cons.mpr ⟨by decide +kernel, ?_⟩
  exact List.forall_mem_nil _

theorem static_keysyms :
    ∀ p ∈ static_keys, Clean p.2 ∧ numpad_key p.1 = none ∧ (normalize_key p.2 = .ok p.2 ↔ p.1 ∉ unread) := by
  unfold static_keys
  repeat refine List.forall_mem_cons.mpr ⟨by decide +kernel, ?_⟩
  exact List.forall_mem_nil _

theorem letter_keysyms :
    ∀ n ∈ letters, Clean n ∧ numpad_key n = none ∧ n ∉ unread ∧ normalize_key n = .ok n := by
  unfold letters
  repeat refine List.forall_mem_cons.mpr ⟨by decide +kernel, ?_⟩
  exact List.forall_mem_nil _

theorem numpad_keysyms :
    ∀ d ∈ ["0", "1", "2", "3", "4", "5", "6", "7", "8", "9"],
      Clean ("KP_" ++ d) ∧ normalize_key ("KP_" ++ d) ≠ .ok ("KP_" ++ d) := by
  decide

variable {c : Char} {n digits : List Char}

theorem isDigit_iff : c.isDigit = true ↔ 48 ≤ c.toNat ∧ c.toNat ≤ 57 := by
  rw [Char.isDigit_iff_toNat]
  exact Iff.rfl

theorem mem_digits (h : c.isDigit = true) :
    String.singleton c ∈ ["0", "1", "2", "3", "4", "5", "6", "7", "8", "9"] := by
  obtain ⟨hlo, hhi⟩ := isDigit_iff.mp h
  rw [← Char.ofNat_toNat c]
  generalize c.toNat = m at hlo hhi
  interval_cases m <;> decide

theorem mem_letters (h : c.isAlphanum = true) (hupper : c.isUpper = false) : String.singleton c ∈ letters := by
  have hrange : (97 ≤ c.toNat ∧ c.toNat ≤ 122) ∨ (48 ≤ c.toNat ∧ c.toNat ≤ 57) := by
    rw [Char.isAlphanum, Char.isAlpha, hupper, Bool.false_or, Bool.or_eq_true] at h
    rcases h with hlow | hdigit
    · rw [Char.isLower, Bool.and_eq_true, decide_eq_true_eq, decide_eq_true_eq] at hlow
      exact .inl ⟨UInt32.le_iff_toNat_le.mp hlow.1, UInt32.le_iff_toNat_le.mp hlow.2⟩
    · exact .inr (isDigit_iff.mp hdigit)
  rw [← Char.ofNat_toNat c]
  generalize c.toNat = m at hrange
  rcases hrange with ⟨hlo, hhi⟩ | ⟨hlo, hhi⟩
  · interval_cases m <;> decide
  · interval_cases m <;> decide

theorem not_whitespace_of_digit (h : c.isDigit = true) : Rust.isWhitespace c = false := by
  have hrange := isDigit_iff.mp h
  unfold Rust.isWhitespace
  simp only [decide_eq_false_iff_not]
  omega

theorem trim_of_no_whitespace {s : String} (h : ∀ c ∈ s.toList, Rust.isWhitespace c = false) : Rust.trim s = s := by
  have hdrop : ∀ l : List Char, (∀ c ∈ l, Rust.isWhitespace c = false) → l.dropWhile Rust.isWhitespace = l := by
    intro l hl
    cases l with
    | nil => rfl
    | cons c l => exact List.dropWhile_cons_of_neg (by simp [hl c List.mem_cons_self])
  unfold Rust.trim
  rw [hdrop _ h]
  unfold List.rdropWhile
  rw [hdrop _ (fun c hc => h c (List.mem_reverse.mp hc)), List.reverse_reverse, String.ofList_toList]

/-- A key of one byte, as its letters are compared. -/
theorem spelling_letter (hsize : (spelling key).utf8ByteSize = 1)
    (hall : (spelling key).toList.all Char.isAlphanum = true) : spelling key ∈ letters := by
  have hlen : (spelling key).toList.length = 1 := by
    have hle := Rust.length_le_utf8Len (spelling key).toList
    have hsum : String.utf8Len (spelling key).toList = 1 := by
      rw [← String.utf8ByteSize_ofList, String.ofList_toList, hsize]
    have hne : (spelling key).toList.length ≠ 0 := by
      intro hzero
      rw [List.length_eq_zero_iff.mp hzero] at hsum
      cases hsum
    omega
  obtain ⟨c, hc⟩ := List.length_eq_one_iff.mp hlen
  have hupper : c.isUpper = false := by
    have hmem : c ∈ (spelling key).toList := by rw [hc]; exact List.mem_singleton_self c
    unfold spelling lowered at hmem
    rw [String.toList_ofList] at hmem
    obtain ⟨d, -, rfl⟩ := List.mem_map.mp (List.mem_of_mem_filter hmem)
    exact Char.isUpper_toLower_eq_false d
  rw [hc, List.all_cons, Bool.and_eq_true] at hall
  have hs : spelling key = String.singleton c := by
    rw [← @String.ofList_toList (spelling key), hc]
    rfl
  rw [hs]
  exact mem_letters hall.1 hupper

/-- Where a keysym comes from. -/
inductive Source (key : String) : String → Prop where
  | mark {k : String} (h : punctuation.lookup (Rust.trim key) = some k) : Source key k
  | named {k : String} (hmark : punctuation.lookup (Rust.trim key) = none)
      (h : static_keys.lookup (spelling key) = some k) : Source key k
  | letter (hmark : punctuation.lookup (Rust.trim key) = none) (h : spelling key ∈ letters) :
      Source key (spelling key)
  | function (hmark : punctuation.lookup (Rust.trim key) = none)
      (hnamed : static_keys.lookup (spelling key) = none) (h : functionNumber key ≠ none) :
      Source key (String.ofList ((spelling key).toList.map Char.toUpper))
  | numpad {digit : List Char} (h : numpad_key (spelling key) = some digit) :
      Source key ("KP_" ++ String.ofList digit)

theorem source_of_normalize_key (h : normalize_key key = .ok k) : Source key k := by
  have hspelling : lowered [' ', '-', '/'] (Rust.trim key) = spelling key := rfl
  unfold normalize_key at h
  simp only [hspelling] at h
  cases hmark : punctuation.lookup (Rust.trim key) with
  | some name =>
    rw [hmark] at h
    obtain rfl := Except.ok.inj h
    exact .mark hmark
  | none =>
    rw [hmark] at h
    dsimp only at h
    cases hnamed : static_keys.lookup (spelling key) with
    | some mapped =>
      rw [hnamed] at h
      obtain rfl := Except.ok.inj h
      exact .named hmark hnamed
    | none =>
      rw [hnamed] at h
      dsimp only at h
      by_cases hletter : (spelling key).utf8ByteSize = 1 ∧ (spelling key).toList.all Char.isAlphanum
      · rw [if_pos hletter] at h
        obtain rfl := Except.ok.inj h
        exact .letter hmark (spelling_letter hletter.1 hletter.2)
      · rw [if_neg hletter] at h
        by_cases hfunction : (function_key (spelling key)).isSome
        · rw [if_pos hfunction] at h
          obtain rfl := Except.ok.inj h
          exact .function hmark hnamed (Option.isSome_iff_ne_none.mp hfunction)
        · rw [if_neg hfunction] at h
          cases hpad : numpad_key (spelling key) with
          | some digit =>
            rw [hpad] at h
            obtain rfl := Except.ok.inj h
            exact .numpad hpad
          | none =>
            rw [hpad] at h
            cases h

theorem mem_of_lookup {α : Type} {l : List (String × α)} {b : α} {a : String} (h : l.lookup a = some b) :
    (a, b) ∈ l := by
  obtain ⟨l₁, l₂, rfl, -⟩ := List.lookup_eq_some_iff.mp h
  simp

/-- A number is digits, or a plus sign and digits. -/
theorem parse_u8_digits {ds : List Char} {m : Nat} (h : parse_u8 ds = some m) :
    (∃ cs, ds = '+' :: cs ∧ cs ≠ []) ∨ ds ≠ [] ∧ ds.all Char.isDigit = true := by
  unfold parse_u8 at h
  dsimp only at h
  split at h
  · rename_i cs
    split_ifs at h with hdigits
    exact .inl ⟨cs, rfl, hdigits.1⟩
  · split_ifs at h with hdigits
    exact .inr ⟨hdigits.1, hdigits.2.1⟩

/-- The digits of a function key. -/
theorem function_key_digits {n : String} {m : Nat} (h : function_key n = some m) (hplus : '+' ∉ n.toList) :
    ∃ ds, n.toList = 'f' :: ds ∧ ds ≠ [] ∧ ds.all Char.isDigit = true := by
  unfold function_key at h
  split at h
  · rename_i ds hds
    refine ⟨ds, hds, ?_⟩
    obtain ⟨hparse, -⟩ := Option.filter_eq_some_iff.mp h
    rcases parse_u8_digits hparse with ⟨cs, rfl, -⟩ | hdigits
    · exact absurd (by rw [hds]; simp) hplus
    · exact hdigits
  · cases h

theorem numpad_key_digit {n : String} {ds : List Char} (h : numpad_key n = some ds) :
    String.ofList ds ∈ ["0", "1", "2", "3", "4", "5", "6", "7", "8", "9"] := by
  unfold numpad_key at h
  split at h
  · rename_i digit hn
    split_ifs at h with hlegal
    obtain rfl := Option.some.inj h
    have hsum : String.utf8Len n.toList = 4 := by
      rw [← String.utf8ByteSize_ofList, String.ofList_toList, hlegal.1]
    have hlen : String.utf8Len digit = 1 := by
      rw [hn] at hsum
      simp only [String.utf8Len_cons] at hsum
      have hn1 : 'n'.utf8Size = 1 := by decide
      have hu1 : 'u'.utf8Size = 1 := by decide
      have hm1 : 'm'.utf8Size = 1 := by decide
      omega
    have hle := Rust.length_le_utf8Len digit
    cases digit with
    | nil => cases hlen
    | cons c cs =>
      obtain rfl : cs = [] := by
        rw [← List.length_eq_zero_iff]
        rw [List.length_cons] at hle
        omega
      refine mem_digits ?_
      obtain ⟨m, hm⟩ := Option.isSome_iff_exists.mp hlegal.2
      rcases parse_u8_digits hm with ⟨cs, heq, hne⟩ | ⟨-, hall⟩
      · exact absurd (List.cons.inj heq).2.symm hne
      · simpa using hall
  · cases h

theorem mem_of_mem_trim {s : String} (h : c ∈ (Rust.trim s).toList) : c ∈ s.toList := by
  unfold Rust.trim at h
  rw [String.toList_ofList] at h
  exact (List.dropWhile_suffix _).mem ((List.rdropWhile_prefix _ _).mem h)

/-- Letters in lower case have no other plus sign. -/
theorem plus_of_mem_spelling (h : '+' ∈ (spelling key).toList) : '+' ∈ key.toList := by
  unfold spelling lowered at h
  rw [String.toList_ofList] at h
  obtain ⟨d, hd, heq⟩ := List.mem_map.mp (List.mem_of_mem_filter h)
  have hplus : d = '+' := by
    by_cases hupper : d.isUpper
    · have halpha := Char.isAlpha_toLower_eq_isAlpha d
      have htrue : d.isAlpha = true := by rw [Char.isAlpha, hupper, Bool.true_or]
      rw [heq, htrue] at halpha
      cases halpha
    · rw [← Char.toLower_eq_of_not_isUpper hupper]
      exact heq
  rw [← hplus]
  exact mem_of_mem_trim hd

/-- Keys that are compared alike are read alike. -/
theorem normalize_key_congr {a b : String} (ha : punctuation.lookup (Rust.trim a) = none)
    (hb : punctuation.lookup (Rust.trim b) = none) (h : spelling a = spelling b) :
    normalize_key a = .ok k ↔ normalize_key b = .ok k := by
  unfold spelling at h
  unfold normalize_key
  simp only [ha, hb, h]
  split
  · exact Iff.rfl
  · split_ifs
    · exact Iff.rfl
    · exact Iff.rfl
    · split
      · exact Iff.rfl
      · simp

theorem lookup_eq_none_of {α : Type} {l : List (String × α)} {a : String} (h : ∀ p ∈ l, p.1 ≠ a) :
    l.lookup a = none := by
  cases hl : l.lookup a with
  | none => rfl
  | some b => exact absurd rfl (h (a, b) (mem_of_lookup hl))

theorem short_punctuation : ∀ p ∈ punctuation, p.1.length = 1 := by
  simp [punctuation, ← String.length_toList]

theorem head_unread : ∀ n ∈ unread, n.toList.head? ≠ some 'f' := by
  simp [unread]

theorem head_modifiers : ∀ p ∈ modifiers, p.1.toList.head? ≠ some 'f' := by
  simp [modifiers]

theorem case_of_digit (h : c.isDigit = true) : c.toUpper = c ∧ c.toLower = c := by
  have hrange := isDigit_iff.mp h
  constructor
  · refine Char.toUpper_eq_of_not_isLower fun hlow => ?_
    rw [Char.isLower, Bool.and_eq_true, decide_eq_true_eq, decide_eq_true_eq] at hlow
    have hle : 97 ≤ c.toNat := UInt32.le_iff_toNat_le.mp hlow.1
    omega
  · refine Char.toLower_eq_of_not_isUpper fun hup => ?_
    rw [Char.isUpper, decide_eq_true_eq] at hup
    have hle : 65 ≤ c.toNat := UInt32.le_iff_toNat_le.mp hup.1
    omega

theorem map_eq_self_of_digits {ds : List Char} (h : ∀ d ∈ ds, d.isDigit = true) :
    ds.map Char.toUpper = ds ∧ ds.map Char.toLower = ds := by
  constructor
  · exact (List.map_congr_left fun d hd => (case_of_digit (h d hd)).1).trans (List.map_id' ds)
  · exact (List.map_congr_left fun d hd => (case_of_digit (h d hd)).2).trans (List.map_id' ds)

/-- A function key in small letters. -/
theorem lowered_function {ds dropped : List Char} (h : ∀ d ∈ ds, d.isDigit = true)
    (hdropped : ∀ d ∈ dropped, d.isDigit = false ∧ d ≠ 'f') :
    lowered dropped (String.ofList ('F' :: ds)) = String.ofList ('f' :: ds) := by
  unfold lowered
  rw [String.toList_ofList, List.map_cons, (map_eq_self_of_digits h).2, show 'F'.toLower = 'f' from rfl,
    List.filter_eq_self.mpr]
  intro d hd
  refine decide_eq_true fun hin => ?_
  obtain ⟨hdigit, hne⟩ := hdropped d hin
  rcases List.mem_cons.mp hd with rfl | hd
  · exact hne rfl
  · rw [h d hd] at hdigit
    cases hdigit

/-- A function key is written with a capital letter, and so it stays. -/
theorem function_keysym {ds : List Char} (hn : (spelling key).toList = 'f' :: ds) (hne : ds ≠ [])
    (hall : ds.all Char.isDigit = true) (hmark : punctuation.lookup (Rust.trim key) = none)
    (h : normalize_key key = .ok (String.ofList ((spelling key).toList.map Char.toUpper))) :
    (spelling key).toList.map Char.toUpper = 'F' :: ds ∧ Clean (String.ofList ('F' :: ds)) ∧
      normalize_key (String.ofList ('F' :: ds)) = .ok (String.ofList ('F' :: ds)) := by
  rw [List.all_eq_true] at hall
  have hmap : (spelling key).toList.map Char.toUpper = 'F' :: ds := by
    rw [hn, List.map_cons, (map_eq_self_of_digits hall).1]
    rfl
  have htrim : Rust.trim (String.ofList ('F' :: ds)) = String.ofList ('F' :: ds) := by
    refine trim_of_no_whitespace fun c hc => ?_
    rw [String.toList_ofList] at hc
    rcases List.mem_cons.mp hc with rfl | hc
    · rfl
    · exact not_whitespace_of_digit (hall c hc)
  have hspelling : spelling (String.ofList ('F' :: ds)) = spelling key := by
    unfold spelling
    rw [htrim, lowered_function hall (by simp)]
    rw [← hn, String.ofList_toList]
    rfl
  have hnomark : punctuation.lookup (Rust.trim (String.ofList ('F' :: ds))) = none := by
    refine lookup_eq_none_of fun p hp heq => ?_
    have hlength := short_punctuation p hp
    rw [heq, htrim, String.length_ofList, List.length_cons] at hlength
    exact hne (List.length_eq_zero_iff.mp (by omega))
  refine ⟨hmap, ⟨?_, htrim, ?_, ?_⟩, ?_⟩
  · rw [String.toList_ofList]
    intro hplus
    rcases List.mem_cons.mp hplus with heq | hplus
    · simp at heq
    · exact absurd (hall _ hplus) (by simp)
  · intro hempty
    have hlist := congrArg String.toList hempty
    rw [String.toList_ofList] at hlist
    cases hlist
  · unfold modifier
    rw [lowered_function hall (by simp)]
    refine lookup_eq_none_of fun p hp heq => head_modifiers p hp ?_
    rw [heq, String.toList_ofList]
    rfl
  · rw [hmap] at h
    exact (normalize_key_congr hnomark hmark hspelling).mpr h

/-- What a key of a trigger is read as is one part, and is read as itself where the key is stable. -/
theorem keysym (hplus : '+' ∉ key.toList) (h : normalize_key key = .ok k) :
    Clean k ∧ (normalize_key k = .ok k ↔ StableKey key) := by
  cases hsource : source_of_normalize_key h with
  | mark hmark =>
    obtain ⟨hclean, hnot⟩ := punctuation_keysyms _ (mem_of_lookup hmark)
    refine ⟨hclean, iff_of_false hnot fun hstable => ?_⟩
    rw [hstable.1] at hmark
    cases hmark
  | named hmark hnamed =>
    obtain ⟨hclean, hpad, hiff⟩ := static_keysyms _ (mem_of_lookup hnamed)
    refine ⟨hclean, hiff.trans ⟨fun hread => ⟨hmark, hread, hpad⟩, fun hstable => hstable.2.1⟩⟩
  | letter hmark hletter =>
    obtain ⟨hclean, hpad, hread, hsame⟩ := letter_keysyms _ hletter
    exact ⟨hclean, iff_of_true hsame ⟨hmark, hread, hpad⟩⟩
  | function hmark hnamed hfunction =>
    obtain ⟨m, hm⟩ := Option.ne_none_iff_exists'.mp hfunction
    obtain ⟨ds, hn, hne, hall⟩ := function_key_digits hm fun hin => hplus (plus_of_mem_spelling hin)
    obtain ⟨hmap, hclean, hsame⟩ := function_keysym hn hne hall hmark h
    rw [hmap]
    refine ⟨hclean, iff_of_true hsame ⟨hmark, fun hunread => ?_, ?_⟩⟩
    · exact head_unread _ hunread (by rw [hn]; rfl)
    · unfold numpad_key
      rw [hn]
      rfl
  | numpad hpad =>
    obtain ⟨hclean, hnot⟩ := numpad_keysyms _ (numpad_key_digit hpad)
    refine ⟨hclean, iff_of_false hnot fun hstable => ?_⟩
    rw [hstable.2.2] at hpad
    cases hpad

/-! ## Portal forms -/

theorem name_clean : ∀ m : Modifier, '+' ∉ m.name.toList ∧ Rust.trim m.name = m.name ∧ m.name ≠ "" ∧
    modifier m.name = some m := by
  intro m
  cases m <;> decide

theorem spelled_eq (hms : ms ≠ []) (k : String) :
    spelled ms k = String.intercalate "+" (ms.map Modifier.name ++ [k]) := by
  unfold spelled
  rw [String.intercalate_append_of_ne_nil (by simpa using hms) (by simp), String.intercalate_singleton]

/-- The parts of a portal form. -/
theorem parts_spelled (hms : ms ≠ []) (hk : Clean k) : parts (spelled ms k) = ms.map Modifier.name ++ [k] := by
  have hall : ∀ p ∈ ms.map Modifier.name ++ [k], '+' ∉ p.toList ∧ Rust.trim p = p ∧ p ≠ "" := by
    intro p hp
    rcases List.mem_append.mp hp with hp | hp
    · obtain ⟨m, -, rfl⟩ := List.mem_map.mp hp
      obtain ⟨hplus, htrim, hne, -⟩ := name_clean m
      exact ⟨hplus, htrim, hne⟩
    · obtain rfl := List.mem_singleton.mp hp
      exact ⟨hk.plus, hk.trimmed, hk.nonempty⟩
  unfold parts
  rw [spelled_eq hms, String.toList_intercalate, show "+".toList = ['+'] from rfl, List.splitOn_intercalate]
  · rw [List.map_map, List.map_congr_left (g := id), List.map_id, List.filter_eq_self.mpr]
    · intro p hp
      exact decide_eq_true (hall p hp).2.2
    · intro p hp
      show Rust.trim (String.ofList p.toList) = p
      rw [String.ofList_toList, (hall p hp).2.1]
  · intro l hl
    obtain ⟨p, hp, rfl⟩ := List.mem_map.mp hl
    exact (hall p hp).1
  · simp

theorem named_spelled (hms : ms ≠ []) (hk : Clean k) : named (spelled ms k) = ms := by
  unfold named
  rw [parts_spelled hms hk, List.filterMap_append, List.filterMap_map, List.filterMap_cons_none hk.noModifier,
    List.filterMap_nil, List.append_nil]
  have hname : modifier ∘ Modifier.name = some := funext fun m => (name_clean m).2.2.2
  rw [hname, List.filterMap_some]

theorem keys_spelled (hms : ms ≠ []) (hk : Clean k) : keys (spelled ms k) = [k] := by
  unfold keys
  rw [parts_spelled hms hk, List.filter_append, List.filter_cons_of_pos (by simp [hk.noModifier])]
  have hnone : (ms.map Modifier.name).filter (fun p => modifier p = none) = [] := by
    rw [List.filter_eq_nil_iff]
    intro p hp
    obtain ⟨m, -, rfl⟩ := List.mem_map.mp hp
    simp [(name_clean m).2.2.2]
  rw [hnone]
  rfl

theorem not_mem_of_mem_splitOn {α : Type} [DecidableEq α] {a : α} {l piece : List α} (h : piece ∈ l.splitOn a) :
    a ∉ piece := by
  induction l generalizing piece with
  | nil =>
    obtain rfl := List.mem_singleton.mp h
    exact List.not_mem_nil
  | cons x l ih =>
    rw [List.splitOn_cons_eq_if_modifyHead] at h
    split_ifs at h with hx
    · rcases List.mem_cons.mp h with rfl | h
      · exact List.not_mem_nil
      · exact ih h
    · cases hl : l.splitOn a with
      | nil => exact absurd hl (List.splitOn_ne_nil a l)
      | cons first rest =>
        rw [hl] at h
        rcases List.mem_cons.mp h with rfl | h
        · intro ha
          rcases List.mem_cons.mp ha with rfl | ha
          · exact hx (beq_self_eq_true a)
          · exact ih (by rw [hl]; exact List.mem_cons_self) ha
        · exact ih (by rw [hl]; exact List.mem_cons_of_mem _ h)

theorem plus_of_mem_parts {p : String} (h : p ∈ parts s) : '+' ∉ p.toList := by
  obtain ⟨piece, hpiece, rfl⟩ := List.mem_map.mp (List.mem_of_mem_filter h)
  intro hplus
  refine not_mem_of_mem_splitOn hpiece ?_
  have hmem := mem_of_mem_trim hplus
  rwa [String.toList_ofList] at hmem

/-- An accepted trigger: its key, what it is read as, and the portal form. -/
theorem accepted (h : normalize_trigger s = .ok r) :
    ∃ key k, keys s = [key] ∧ normalize_key key = .ok k ∧ Clean k ∧ (normalize_key k = .ok k ↔ StableKey key) ∧
      firsts (named s) ≠ [] ∧ r = spelled (firsts (named s)) k := by
  obtain ⟨key, k, hkeys, hk, hne, rfl⟩ := normalize_trigger_eq_ok.mp h
  have hmem : key ∈ keys s := by rw [hkeys]; exact List.mem_singleton_self key
  obtain ⟨hclean, hiff⟩ := keysym (plus_of_mem_parts (List.mem_of_mem_filter hmem)) hk
  exact ⟨key, k, hkeys, hk, hclean, hiff, fun hnil => hne (firsts_eq_nil.mp hnil), rfl⟩

/-- A portal form is left as it is where the key of its trigger is stable. -/
theorem renormalize_iff (h : normalize_trigger s = .ok r) : normalize_trigger r = .ok r ↔ Stable s := by
  obtain ⟨key, k, hkeys, -, hclean, hiff, hne, rfl⟩ := accepted h
  unfold Stable
  rw [hkeys, List.forall_mem_singleton, ← hiff, normalize_trigger_eq_ok, named_spelled hne hclean,
    keys_spelled hne hclean, firsts_of_nodup (nodup_firsts _)]
  constructor
  · rintro ⟨key', k', hkey', hk', -, heq⟩
    obtain rfl := List.singleton_inj.mp hkey'
    have hsame : k = k' := by
      unfold spelled at heq
      exact (String.append_right_inj _).mp heq
    rw [← hsame] at hk'
    exact hk'
  · intro hk
    exact ⟨k, k, rfl, hk, hne, rfl⟩

theorem head_static_keys : ∀ p ∈ static_keys, p.1.toList.head? ≠ some 'f' := by
  simp [static_keys]

theorem length_letters : ∀ n ∈ letters, n.length = 1 := by
  simp [letters, ← String.length_toList]

theorem length_spelling_le (key : String) : (spelling key).length ≤ (Rust.trim key).length := by
  unfold spelling lowered
  rw [String.length_ofList]
  refine (List.length_filter_le _ _).trans ?_
  rw [List.length_map, String.length_toList]

/-- How a function key is read. -/
theorem function_source (hplus : '+' ∉ key.toList) (h : normalize_key key = .ok k)
    (hfunction : functionNumber key ≠ none) :
    ∃ ds, spelling key = String.ofList ('f' :: ds) ∧ k = String.ofList ('F' :: ds) := by
  obtain ⟨m, hm⟩ := Option.ne_none_iff_exists'.mp hfunction
  obtain ⟨ds, hn, hne, hall⟩ := function_key_digits hm fun hin => hplus (plus_of_mem_spelling hin)
  have hspelling : spelling key = String.ofList ('f' :: ds) := by rw [← hn, String.ofList_toList]
  have hlength : 2 ≤ (spelling key).length := by
    rw [← String.length_toList, hn, List.length_cons]
    have hpos := List.length_pos_of_ne_nil hne
    omega
  refine ⟨ds, hspelling, ?_⟩
  cases hsource : source_of_normalize_key h with
  | mark hmark =>
    have hshort := short_punctuation _ (mem_of_lookup hmark)
    have hle := length_spelling_le key
    dsimp only at hshort
    omega
  | named hmark hnamed =>
    refine absurd ?_ (head_static_keys _ (mem_of_lookup hnamed))
    rw [hn]
    rfl
  | letter hmark hletter =>
    have hshort := length_letters _ hletter
    omega
  | function hmark hnamed _ => rw [(function_keysym hn hne hall hmark h).1]
  | numpad hpad =>
    unfold numpad_key at hpad
    rw [hn] at hpad
    cases hpad

/-- Two keys with the same keysym, or the same function key, are written alike where their digits are. -/
theorem keysym_eq_iff {a b k' : String} (hplus : '+' ∉ a.toList) (hplus' : '+' ∉ b.toList)
    (ha : normalize_key a = .ok k) (hb : normalize_key b = .ok k') (h : SameKey a b) :
    k = k' ↔ (functionNumber a ≠ none → functionNumber b ≠ none → spelling a = spelling b) := by
  constructor
  · rintro rfl hfa hfb
    obtain ⟨ds, hsa, hka⟩ := function_source hplus ha hfa
    obtain ⟨ds', hsb, hkb⟩ := function_source hplus' hb hfb
    have hlist := String.ofList_injective (hka.symm.trans hkb)
    rw [hsa, hsb, (List.cons.inj hlist).2]
  · intro hwritten
    rcases h with heq | ⟨hfa, hnumber⟩
    · exact Except.ok.inj (ha.symm.trans (heq.trans hb))
    · have hfb : functionNumber b ≠ none := by rwa [← hnumber]
      obtain ⟨ds, hsa, rfl⟩ := function_source hplus ha hfa
      obtain ⟨ds', hsb, rfl⟩ := function_source hplus' hb hfb
      have hsame := hwritten hfa hfb
      rw [hsa, hsb] at hsame
      rw [(List.cons.inj (String.ofList_injective hsame)).2]

theorem renamed_iff {q : String} (hs : normalize_trigger s = .ok r) (ht : normalize_trigger t = .ok q)
    (h : SameNames s t) : r = q ↔ SameWriting s t := by
  obtain ⟨a, k, hkeys, hk, hclean, -, hne, rfl⟩ := accepted hs
  obtain ⟨b, k', hkeys', hk', hclean', -, hne', rfl⟩ := accepted ht
  have hmem : a ∈ keys s := by rw [hkeys]; exact List.mem_singleton_self a
  have hmem' : b ∈ keys t := by rw [hkeys']; exact List.mem_singleton_self b
  have hkey := keysym_eq_iff (plus_of_mem_parts (List.mem_of_mem_filter hmem))
    (plus_of_mem_parts (List.mem_of_mem_filter hmem')) hk hk' (h.2 a hmem b hmem')
  have hform : spelled (firsts (named s)) k = spelled (firsts (named t)) k' ↔
      firsts (named s) = firsts (named t) ∧ k = k' := by
    constructor
    · intro heq
      have hnamed := congrArg named heq
      have hkeysym := congrArg keys heq
      rw [named_spelled hne hclean, named_spelled hne' hclean'] at hnamed
      rw [keys_spelled hne hclean, keys_spelled hne' hclean'] at hkeysym
      exact ⟨hnamed, List.singleton_inj.mp hkeysym⟩
    · rintro ⟨hnamed, rfl⟩
      rw [hnamed]
  rw [hform, hkey]
  unfold SameWriting
  rw [hkeys, hkeys', List.forall_mem_singleton, List.forall_mem_singleton]

/-- A normalized trigger is normal where its key is stable, and two triggers for the same are normalized
    alike where they are written alike. -/
theorem normal_form_iff {s t r q : String} (hs : normalize_trigger s = .ok r) (ht : normalize_trigger t = .ok q) :
    (normalize_trigger r = .ok r ↔ Stable s) ∧ (SameNames s t → (r = q ↔ SameWriting s t)) :=
  ⟨renormalize_iff hs, renamed_iff hs ht⟩

theorem normal_form_iff_copy :
    (normalize_trigger "CTRL+c" = .ok "CTRL+c" ↔ Stable "ctrl+c") ∧
      (SameNames "ctrl+c" "Control+C" → ("CTRL+c" = "CTRL+c" ↔ SameWriting "ctrl+c" "Control+C")) :=
  normal_form_iff (by decide) (by decide)

/-- `Ctrl+?` -/
theorem not_normal_form :
    ¬ ((∀ s r, normalize_trigger s = .ok r → normalize_trigger r = .ok r) ∧
      ∀ s t r q, normalize_trigger s = .ok r → normalize_trigger t = .ok q → SameNames s t → r = q) := by
  intro h
  have hfirst : normalize_trigger "Ctrl+?" = .ok "CTRL+question" := by decide
  have hagain := h.1 _ _ hfirst
  revert hagain
  decide

end Hotkey
