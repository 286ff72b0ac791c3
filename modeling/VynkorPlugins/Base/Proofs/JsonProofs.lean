import VynkorPlugins.Base.Json
import Mathlib.Tactic.SplitIfs

/-!
# A compact text is read back

`read_print`: the text written for a value is read as that value, its objects with their fields in
the order of the names.
-/

namespace Json

/-! ## Strings -/

theorem hexValue_hexDigit : ∀ d < 16, hexValue (hexDigit d) = some d := by decide

theorem readString_cons (c : Char) (rest : List Char) :
    readString (c :: rest) =
      if c = '"' then some ([], rest)
      else if c = '\\' then
        match rest with
        | [] => none
        | e :: rest =>
          if e = 'u' then
            match rest with
            | z :: z' :: a :: b :: rest =>
              match hexValue a, hexValue b with
              | some x, some y =>
                if z = '0' ∧ z' = '0' then
                  (readString rest).map fun r => (Char.ofNat (16 * x + y) :: r.1, r.2)
                else none
              | _, _ => none
            | _ => none
          else
            match unescape e with
            | some x => (readString rest).map fun r => (x :: r.1, r.2)
            | none => none
      else (readString rest).map fun r => (c :: r.1, r.2) :=
  readString.eq_def _

theorem readString_plain {c : Char} (hq : c ≠ '"') (hb : c ≠ '\\') (rest : List Char) :
    readString (c :: rest) = (readString rest).map fun r => (c :: r.1, r.2) := by
  rw [readString_cons]
  simp only [hq, hb, if_false]

theorem readString_letter {e x : Char} (hu : e ≠ 'u') (hx : unescape e = some x) (rest : List Char) :
    readString ('\\' :: e :: rest) = (readString rest).map fun r => (x :: r.1, r.2) := by
  rw [readString_cons]
  simp [hu, hx]

theorem readString_unicode {a b : Char} {x y : Nat} (ha : hexValue a = some x)
    (hb : hexValue b = some y) (rest : List Char) :
    readString ('\\' :: 'u' :: '0' :: '0' :: a :: b :: rest) =
      (readString rest).map fun r => (Char.ofNat (16 * x + y) :: r.1, r.2) := by
  rw [readString_cons]
  simp [ha, hb]

theorem readString_escapeChar (c : Char) (rest : List Char) :
    readString (escapeChar c ++ rest) = (readString rest).map fun r => (c :: r.1, r.2) := by
  unfold escapeChar
  split_ifs with h1 h2 h3 h4 h5 h6 h7 h8
  · subst h1; exact readString_letter (by decide) rfl rest
  · subst h2; exact readString_letter (by decide) rfl rest
  · subst h3; exact readString_letter (by decide) rfl rest
  · subst h4; exact readString_letter (by decide) rfl rest
  · subst h5; exact readString_letter (by decide) rfl rest
  · subst h6; exact readString_letter (by decide) rfl rest
  · subst h7; exact readString_letter (by decide) rfl rest
  · have hx := hexValue_hexDigit (c.toNat / 16) (by omega)
    have hy := hexValue_hexDigit (c.toNat % 16) (by omega)
    have hc : Char.ofNat (16 * (c.toNat / 16) + c.toNat % 16) = c := by
      rw [Nat.div_add_mod]; exact Char.ofNat_toNat c
    have h := readString_unicode hx hy rest
    rwa [hc] at h
  · exact readString_plain h1 h2 rest

/-- A written string is read up to its closing quote. -/
theorem readString_flatMap_escapeChar (cs rest : List Char) :
    readString (cs.flatMap escapeChar ++ '"' :: rest) = some (cs, rest) := by
  induction cs with
  | nil => rw [List.flatMap_nil, List.nil_append, readString_cons]; simp
  | cons c cs ih => simp [List.append_assoc, readString_escapeChar, ih]

/-! ## Numbers -/

/-- What comes after a number does not go on with it. -/
def NumberEnd (rest : List Char) : Prop :=
  ∀ c ∈ rest.head?, isNumberChar c = false

theorem NumberEnd.nil : NumberEnd [] := by simp [NumberEnd]

theorem NumberEnd.itemsChars (xs : List Json) (rest : List Char) :
    NumberEnd (itemsChars xs ++ rest) := by
  cases xs <;> simp [NumberEnd, Json.itemsChars] <;> decide

theorem NumberEnd.fieldsChars (fs : List (String × Json)) (rest : List Char) :
    NumberEnd (fieldsChars fs ++ rest) := by
  cases fs <;> simp [NumberEnd, Json.fieldsChars] <;> decide

theorem takeWhile_isNumberChar {token rest : List Char} (ht : ∀ c ∈ token, isNumberChar c)
    (hr : NumberEnd rest) : (token ++ rest).takeWhile isNumberChar = token := by
  rw [List.takeWhile_append_of_pos ht]
  cases rest with
  | nil => simp
  | cons c rest => simp [hr c rfl]

theorem dropWhile_isNumberChar {token rest : List Char} (ht : ∀ c ∈ token, isNumberChar c)
    (hr : NumberEnd rest) : (token ++ rest).dropWhile isNumberChar = rest := by
  rw [List.dropWhile_append_of_pos ht]
  cases rest with
  | nil => simp
  | cons c rest => simp [hr c rfl]

theorem isDigit_of_mem_toDigits {n : Nat} {c : Char} (h : c ∈ Nat.toDigits 10 n) : c.isDigit :=
  Nat.isDigit_of_mem_toDigits (by decide) (by decide) h

theorem readNumber_digits {ds : List Char} (hne : ds ≠ []) (hall : ds.all Char.isDigit) :
    readNumber ds = some (.int (Nat.ofDigitChars 10 ds 0)) := by
  obtain ⟨c, ds, rfl⟩ := List.exists_cons_of_ne_nil hne
  simp only [readNumber, hall, if_true]

theorem readNumber_minus {ds : List Char} (hne : ds ≠ []) (hall : ds.all Char.isDigit) :
    readNumber ('-' :: ds) = some (.int (-(Nat.ofDigitChars 10 ds 0))) := by
  have hminus : ('-' :: ds).all Char.isDigit = false := by
    rw [List.all_cons]; rfl
  simp only [readNumber, hminus, hall, hne, ne_eq, not_false_eq_true, and_self, if_true,
    Bool.false_eq_true, if_false]

theorem readNumber_intChars (n : Int) : readNumber (intChars n) = some (.int n) := by
  have hall : ∀ m, (Nat.toDigits 10 m).all Char.isDigit := fun m => by
    simpa using fun c hc => isDigit_of_mem_toDigits hc
  cases n with
  | ofNat n =>
    rw [intChars, readNumber_digits Nat.toDigits_ne_nil (hall n), Nat.ofDigitChars_ten_toDigits]
    rfl
  | negSucc n =>
    rw [intChars, readNumber_minus Nat.toDigits_ne_nil (hall _), Nat.ofDigitChars_ten_toDigits]
    rfl

theorem isNumberChar_of_mem_intChars {n : Int} {c : Char} (h : c ∈ intChars n) :
    isNumberChar c := by
  have hdigit : ∀ m, c ∈ Nat.toDigits 10 m → isNumberChar c := fun m hm => by
    simp [isNumberChar, isDigit_of_mem_toDigits hm]
  cases n with
  | ofNat n => exact hdigit _ h
  | negSucc n =>
    rcases List.mem_cons.mp h with rfl | h
    · decide
    · exact hdigit _ h

/-- A number starts with a digit or a sign. -/
theorem head_intChars (n : Int) : ∃ c ∈ (intChars n).head?, c.isDigit ∨ c = '-' := by
  cases n with
  | ofNat n =>
    obtain ⟨c, ds, hds⟩ := List.exists_cons_of_ne_nil (Nat.toDigits_ne_nil (n := n) (b := 10))
    exact ⟨c, by simp [intChars, hds], .inl (isDigit_of_mem_toDigits (by rw [hds]; simp))⟩
  | negSucc n => exact ⟨'-', by simp [intChars], .inr rfl⟩

theorem readNumber_floatLit (x : FloatLit) : readNumber x.text.toList = some (.float x) := by
  obtain ⟨hchars, ⟨c, hc, hsign⟩, hpoint⟩ := x.valid
  obtain ⟨ds, hds⟩ : ∃ ds, x.text.toList = c :: ds := by
    cases h : x.text.toList with
    | nil => simp [h] at hc
    | cons d ds => simp [h] at hc; exact ⟨ds, by rw [hc]⟩
  have hpoint' : ∃ d ∈ c :: ds, d.isDigit = false ∧ d ≠ '-' := by
    rw [hds] at hpoint
    rcases hpoint with h | h
    · exact ⟨_, h, by decide, by decide⟩
    · exact ⟨_, h, by decide, by decide⟩
  obtain ⟨d, hd, hnd, hdm⟩ := hpoint'
  have hall : ¬ (c :: ds).all Char.isDigit := fun h => by
    simp [List.all_eq_true.mp h d hd] at hnd
  have hneg : ¬ (c = '-' ∧ ds ≠ [] ∧ ds.all Char.isDigit) := fun h => by
    rcases List.mem_cons.mp hd with rfl | hd
    · exact hdm h.1
    · simp [List.all_eq_true.mp h.2.2 d hd] at hnd
  have hv : FloatLit.Valid (c :: ds) := hds ▸ x.valid
  simp only [hds, readNumber, hall, hneg, hv, if_false, dif_pos, Bool.false_eq_true]
  cases x
  simp only [← hds, String.ofList_toList]

/-- A number is read up to the end of its token. -/
theorem readValue_number {token rest : List Char} {j : Json} (fuel : Nat)
    (ht : ∀ c ∈ token, isNumberChar c) (hc : ∃ c ∈ token.head?, c.isDigit ∨ c = '-')
    (hr : NumberEnd rest) (hj : readNumber token = some j) :
    readValue (fuel + 1) (token ++ rest) = some (j, rest) := by
  obtain ⟨c, hc, hsign⟩ := hc
  obtain ⟨ds, rfl⟩ : ∃ ds, token = c :: ds := by
    cases token with
    | nil => simp at hc
    | cons d ds => simp at hc; exact ⟨ds, by rw [hc]⟩
  have hne : ∀ d : Char, d.isDigit = false → d ≠ '-' → c ≠ d := by
    rintro d hd hm rfl
    rcases hsign with h | h
    · simp [h] at hd
    · exact hm h
  have htake := takeWhile_isNumberChar ht hr
  have hdrop := dropWhile_isNumberChar ht hr
  rw [List.cons_append] at htake hdrop ⊢
  rw [readValue, if_neg (hne _ (by decide) (by decide)), if_neg (hne _ (by decide) (by decide)),
    if_neg (hne _ (by decide) (by decide)), if_neg (hne _ (by decide) (by decide)),
    if_neg (hne _ (by decide) (by decide)), if_neg (hne _ (by decide) (by decide)), htake, hdrop, hj]
  rfl

/-! ## Values -/

/-- The head of a value is not the bracket that closes an empty array, nor the brace that closes an
    empty object. -/
theorem head_chars (j : Json) : ∃ c ∈ j.chars.head?, c ≠ ']' ∧ c ≠ '}' := by
  have hnumber : ∀ c : Char, c.isDigit ∨ c = '-' → c ≠ ']' ∧ c ≠ '}' := by
    rintro c (h | rfl)
    · constructor <;> rintro rfl <;> simp at h
    · decide
  match j with
  | .null => exact ⟨'n', by simp [chars], by decide, by decide⟩
  | .bool true => exact ⟨'t', by simp [chars], by decide, by decide⟩
  | .bool false => exact ⟨'f', by simp [chars], by decide, by decide⟩
  | .int n =>
    obtain ⟨c, hc, h⟩ := head_intChars n
    exact ⟨c, by simpa [chars] using hc, hnumber c h⟩
  | .float x =>
    obtain ⟨_, ⟨c, hc, h⟩, _⟩ := x.valid
    exact ⟨c, by simpa [chars] using hc, hnumber c h⟩
  | .str s => exact ⟨'"', by simp [chars, stringChars], by decide, by decide⟩
  | .arr [] => exact ⟨'[', by simp [chars], by decide, by decide⟩
  | .arr (x :: xs) => exact ⟨'[', by simp [chars], by decide, by decide⟩
  | .obj [] => exact ⟨'{', by simp [chars], by decide, by decide⟩
  | .obj ((k, x) :: fs) => exact ⟨'{', by simp [chars], by decide, by decide⟩

theorem expect_bracket_chars (j : Json) (rest : List Char) :
    expect [']'] (j.chars ++ rest) = none := by
  obtain ⟨c, hc, h, _⟩ := head_chars j
  cases hj : j.chars with
  | nil => simp [hj] at hc
  | cons d ds => simp [hj] at hc; simp [expect, hc, h.symm]

theorem length_stringChars (s : String) : 2 ≤ (stringChars s).length := by
  simp [stringChars]

/-- A written field is read back. -/
theorem readField_chars {x x' : Json} {fuel : Nat} {rest : List Char} (k : String)
    (hx : readValue fuel (x.chars ++ rest) = some (x', rest)) :
    readField (fuel + 1) (stringChars k ++ ':' :: x.chars ++ rest) = some (k, x', rest) := by
  have hk := readString_flatMap_escapeChar k.toList (':' :: (x.chars ++ rest))
  simp only [stringChars, List.append_assoc, List.cons_append, List.nil_append] at hk ⊢
  simp only [readField, expect, if_true, hk, hx, Option.map_some, String.ofList_toList]

mutual

/-- What is written for a value is read back, whatever comes after it. -/
theorem readValue_chars (j : Json) (fuel : Nat) (rest : List Char) (hf : j.chars.length ≤ fuel)
    (hr : NumberEnd rest) : readValue fuel (j.chars ++ rest) = some (j.normal, rest) := by
  obtain ⟨fuel, rfl⟩ : ∃ n, fuel = n + 1 := by
    obtain ⟨c, hc, _⟩ := head_chars j
    cases hj : j.chars with
    | nil => simp [hj] at hc
    | cons d ds => rw [hj, List.length_cons] at hf; exact ⟨fuel - 1, by omega⟩
  match j with
  | .null => simp [chars, readValue, expect, normal]
  | .bool true => simp [chars, readValue, expect, normal]
  | .bool false => simp [chars, readValue, expect, normal]
  | .int n =>
    exact readValue_number fuel (fun c => isNumberChar_of_mem_intChars) (head_intChars n) hr
      (readNumber_intChars n)
  | .float x =>
    exact readValue_number fuel x.valid.1 x.valid.2.1 hr (readNumber_floatLit x)
  | .str s =>
    have hs := readString_flatMap_escapeChar s.toList rest
    simp [chars, stringChars, readValue, hs, normal]
  | .arr [] => simp [chars, readValue, expect, normal, normalItems]
  | .arr (x :: xs) =>
    rw [chars, List.cons_append, List.length_cons, List.length_append] at hf
    have hx := readValue_chars x fuel (itemsChars xs ++ rest) (by omega) (.itemsChars xs rest)
    have hxs := readItems_chars xs fuel rest (by omega)
    have hb := expect_bracket_chars x (itemsChars xs ++ rest)
    simp [chars, readValue, List.append_assoc, hb, hx, hxs, normal, normalItems]
  | .obj [] => simp [chars, readValue, expect, normal, normalFields]
  | .obj ((k, x) :: fs) =>
    rw [chars, List.length_append, List.length_append, List.length_cons, List.length_cons] at hf
    have hk := length_stringChars k
    obtain ⟨fuel, rfl⟩ : ∃ n, fuel = n + 1 := ⟨fuel - 1, by omega⟩
    have hx := readField_chars k
      (readValue_chars x fuel (fieldsChars fs ++ rest) (by omega) (.fieldsChars fs rest))
    have hfs := readFields_chars fs (insertField k x.normal []) (fuel + 1) rest (by omega)
    have hb : expect ['}'] (stringChars k ++ ':' :: x.chars ++ (fieldsChars fs ++ rest)) = none := by
      simp [stringChars, expect]
    simp only [chars, List.append_assoc, List.cons_append] at hx hb ⊢
    simp [readValue, hb, hx, hfs, normal, normalFields]

theorem readItems_chars (xs : List Json) (fuel : Nat) (rest : List Char)
    (hf : (itemsChars xs).length ≤ fuel) :
    readItems fuel (itemsChars xs ++ rest) = some (normalItems xs, rest) := by
  match xs with
  | [] =>
    obtain ⟨fuel, rfl⟩ : ∃ n, fuel = n + 1 := ⟨fuel - 1, by simp [itemsChars] at hf; omega⟩
    simp [itemsChars, readItems, normalItems]
  | x :: xs =>
    rw [itemsChars, List.cons_append, List.length_cons, List.length_append] at hf
    obtain ⟨fuel, rfl⟩ : ∃ n, fuel = n + 1 := ⟨fuel - 1, by omega⟩
    have hx := readValue_chars x fuel (itemsChars xs ++ rest) (by omega) (.itemsChars xs rest)
    have hxs := readItems_chars xs fuel rest (by omega)
    simp [itemsChars, readItems, List.append_assoc, hx, hxs, normalItems]

theorem readFields_chars (fs : List (String × Json)) (acc : List (String × Json)) (fuel : Nat)
    (rest : List Char) (hf : (fieldsChars fs).length ≤ fuel) :
    readFields fuel acc (fieldsChars fs ++ rest) = some (normalFields acc fs, rest) := by
  match fs with
  | [] =>
    obtain ⟨fuel, rfl⟩ : ∃ n, fuel = n + 1 := ⟨fuel - 1, by simp [fieldsChars] at hf; omega⟩
    simp [fieldsChars, readFields, normalFields]
  | (k, x) :: fs =>
    rw [fieldsChars, List.length_append, List.length_append, List.length_cons, List.length_cons]
      at hf
    have hk := length_stringChars k
    obtain ⟨fuel, rfl⟩ : ∃ n, fuel = n + 2 := ⟨fuel - 2, by omega⟩
    have hx := readField_chars k
      (readValue_chars x fuel (fieldsChars fs ++ rest) (by omega) (.fieldsChars fs rest))
    have hfs := readFields_chars fs (insertField k x.normal acc) (fuel + 1) rest (by omega)
    simp only [fieldsChars, List.append_assoc, List.cons_append] at hx ⊢
    simp [readFields, hx, hfs, normalFields]

end

/-- The text written for a value is read back. -/
theorem read_print (j : Json) : read j.print = some j.normal := by
  have h := readValue_chars j (j.chars.length + 1) [] (by omega) .nil
  rw [List.append_nil] at h
  simp [read, print, h]

/-! ## Objects whose fields are in order -/

theorem insertField_append {k : String} {x : Json} {fs : List (String × Json)}
    (h : ∀ f ∈ fs, f.1 < k) : insertField k x fs = fs ++ [(k, x)] := by
  induction fs with
  | nil => rfl
  | cons f fs ih =>
    obtain ⟨k', x'⟩ := f
    have hk : k' < k := h (k', x') (by simp)
    simp [insertField, hk.not_gt, hk.ne', ih fun f hf => h f (by simp [hf])]

theorem normalFields_of_ordered (acc fs : List (String × Json)) (h : Ordered (acc ++ fs)) :
    normalFields acc fs = acc ++ fs.map fun f => (f.1, f.2.normal) := by
  induction fs generalizing acc with
  | nil => simp [normalFields]
  | cons f fs ih =>
    obtain ⟨k, x⟩ := f
    rw [Ordered, List.map_append] at h
    have hacc : ∀ f ∈ acc, f.1 < k := fun f hf =>
      (List.pairwise_append.mp h).2.2 f.1 (List.mem_map_of_mem hf) k (by simp)
    have hord : Ordered ((acc ++ [(k, x.normal)]) ++ fs) := by
      rw [Ordered, List.append_assoc, List.map_append]
      exact h
    rw [normalFields, insertField_append hacc, ih _ hord]
    simp

/-- A map of the source is read back field by field. -/
theorem normal_obj {fs : List (String × Json)} (h : Ordered fs) :
    (obj fs).normal = obj (fs.map fun f => (f.1, f.2.normal)) := by
  rw [normal, normalFields_of_ordered [] fs (by simpa using h), List.nil_append]

end Json
