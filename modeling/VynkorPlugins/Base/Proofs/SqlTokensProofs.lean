import Mathlib.Data.List.DropRight
import Mathlib.Data.List.TakeDrop
import Mathlib.Data.List.TakeWhile
import Mathlib.Tactic.Linarith
import VynkorPlugins.Base.SqlTokens

/-!
# The tokens of SQL

The tokens of a text are its bytes, one after the other, and a word neither begins inside of another
token nor ends before one.
-/

namespace SqlTokens

variable {b c d q : UInt8} {z s rest : Bytes}

/-! ## Bytes -/

theorem forall_byte {p : UInt8 → Prop} (h : ∀ n : Fin 256, p (UInt8.ofFin n)) (b : UInt8) : p b :=
  h b.toFin

/-- A byte that is neither part of a name nor a quote. -/
def plain (b : UInt8) : Bool :=
  !isWordByte b && !isQuote b

theorem isIdChar_of_isAlpha (h : isAlpha b = true) : isIdChar b = true := by
  simp [isIdChar, h]

/-- What the classes have to do with each other, for each of the bytes at once. -/
theorem classes_spec : ∀ b,
    ((isSpace b = true → plain b = true) ∧ (isSpace b = true → isIdChar b = false) ∧
      (b ∈ [9, 10, 12, 13, 32] → isSpace b = true)) ∧
    ((isIdChar b = false → isWordByte b = false) ∧
      (b ∈ [byte '\'', byte '"', byte (Char.ofNat 96)] → isWordByte b = false) ∧
      (isIdChar b = false → b ∉ [byte '\'', byte '"', byte (Char.ofNat 96)] → plain b = true)) ∧
    (isWordByte (lower b) = isWordByte b ∧ isQuote (lower b) = isQuote b ∧
      (lower b = byte 'a' → isAlpha b = true) ∧ (isQuote b = true → lower b = b)) := by
  refine forall_byte ?_
  decide +kernel

theorem plain_of_isSpace (b : UInt8) (h : isSpace b = true) : plain b = true :=
  (classes_spec b).1.1 h

theorem not_isIdChar_of_isSpace (b : UInt8) (h : isSpace b = true) : isIdChar b = false :=
  (classes_spec b).1.2.1 h

theorem isSpace_of_mem (b : UInt8) (h : b ∈ [9, 10, 12, 13, 32]) : isSpace b = true :=
  (classes_spec b).1.2.2 h

theorem not_isWordByte_of_not_isIdChar (b : UInt8) (h : isIdChar b = false) : isWordByte b = false :=
  (classes_spec b).2.1.1 h

theorem not_isWordByte_of_mem (b : UInt8) (h : b ∈ [byte '\'', byte '"', byte (Char.ofNat 96)]) :
    isWordByte b = false :=
  (classes_spec b).2.1.2.1 h

theorem plain_of_not_isIdChar (b : UInt8) (h : isIdChar b = false)
    (hquote : b ∉ [byte '\'', byte '"', byte (Char.ofNat 96)]) : plain b = true :=
  (classes_spec b).2.1.2.2 h hquote

theorem isWordByte_lower (b : UInt8) : isWordByte (lower b) = isWordByte b :=
  (classes_spec b).2.2.1

theorem isQuote_lower (b : UInt8) : isQuote (lower b) = isQuote b :=
  (classes_spec b).2.2.2.1

theorem isAlpha_of_lower (b : UInt8) (h : lower b = byte 'a') : isAlpha b = true :=
  (classes_spec b).2.2.2.2.1 h

/-- Quotes have no case. -/
theorem lower_of_isQuote (b : UInt8) (h : isQuote b = true) : lower b = b :=
  (classes_spec b).2.2.2.2.2 h

/-! ## Parts of tokens -/

theorem not_of_dropWhile {p : UInt8 → Bool} (hrest : z.dropWhile p = d :: rest) : p d = false := by
  have hd := List.head_dropWhile_not p (by rw [hrest]; exact List.cons_ne_nil _ _)
  simpa [hrest] using hd

/-- What is left behind a part that takes all such bytes. -/
theorem not_of_span {p : UInt8 → Bool} (h : (z.span p).2 = d :: rest) : p d = false := by
  rw [List.span_eq_takeWhile_dropWhile] at h
  exact not_of_dropWhile h

theorem span_append (p : UInt8 → Bool) (z : Bytes) : (z.span p).1 ++ (z.span p).2 = z := by
  rw [List.span_eq_takeWhile_dropWhile]
  exact List.takeWhile_append_dropWhile

theorem upTo_append (q : UInt8) (z : Bytes) : (upTo q z).1 ++ (upTo q z).2 = z := by
  have happend := span_append (· ≠ q) z
  unfold upTo
  split
  · rename_i s c rest hspan
    rw [hspan] at happend
    rw [List.append_assoc]
    exact happend
  · rename_i s hspan
    rw [hspan] at happend
    exact happend

/-- A part that something follows has its end. -/
theorem upTo_closed (h : (upTo q z).2 ≠ []) : ∃ s, (upTo q z).1 = s ++ [q] := by
  unfold upTo at h ⊢
  split
  · rename_i s c rest hspan
    have hc := not_of_span (show (z.span (· ≠ q)).2 = c :: rest by rw [hspan])
    obtain rfl : c = q := by simpa using hc
    exact ⟨s, rfl⟩
  · rename_i s hspan
    simp only [hspan] at h
    exact absurd rfl h

theorem quoted_append (q : UInt8) (z : Bytes) : (quoted q z).1 ++ (quoted q z).2 = z := by
  induction z using quoted.induct q with
  | case1 => rfl
  | case2 c => rfl
  | case3 c d z hc ih =>
    rw [quoted, if_pos hc]
    exact congrArg (c :: ·) ih
  | case4 c z hc ih =>
    rw [quoted, if_neg hc, if_pos rfl]
    exact congrArg (c :: q :: ·) ih
  | case5 c d z hc hd => rw [quoted, if_neg hc, if_neg hd, List.singleton_append]

theorem quoted_closed (h : (quoted q z).2 ≠ []) : ∃ s, (quoted q z).1 = s ++ [q] := by
  induction z using quoted.induct q with
  | case1 => exact absurd rfl h
  | case2 c => exact absurd rfl h
  | case3 c d z hc ih =>
    rw [quoted, if_pos hc] at h ⊢
    obtain ⟨s, hs⟩ := ih h
    exact ⟨c :: s, congrArg (c :: ·) hs⟩
  | case4 c z hc ih =>
    rw [quoted, if_neg hc, if_pos rfl] at h ⊢
    obtain ⟨s, hs⟩ := ih h
    exact ⟨c :: q :: s, congrArg (c :: q :: ·) hs⟩
  | case5 c d z hc hd =>
    rw [quoted, if_neg hc, if_neg hd]
    exact ⟨[], by rw [List.nil_append, not_not.mp hc]⟩

theorem comment_append (z : Bytes) : (comment z).1 ++ (comment z).2 = z := by
  induction z using comment.induct with
  | case1 => rfl
  | case2 c => rfl
  | case3 c d z hend => rw [comment, if_pos hend]; rfl
  | case4 c d z hgo ih =>
    rw [comment, if_neg hgo]
    exact congrArg (c :: ·) ih

theorem comment_closed (h : (comment z).2 ≠ []) : ∃ s, (comment z).1 = s ++ [byte '/'] := by
  induction z using comment.induct with
  | case1 => exact absurd rfl h
  | case2 c => exact absurd rfl h
  | case3 c d z hend =>
    rw [comment, if_pos hend, hend.2]
    exact ⟨[c], rfl⟩
  | case4 c d z hgo ih =>
    rw [comment, if_neg hgo] at h ⊢
    obtain ⟨s, hs⟩ := ih h
    exact ⟨c :: s, congrArg (c :: ·) hs⟩

theorem fraction_append (z : Bytes) : (fraction z).1 ++ (fraction z).2 = z := by
  unfold fraction
  split
  · rfl
  · split_ifs with hc
    · exact congrArg (_ :: ·) (span_append _ _)
    · rfl

theorem exponent_append (z : Bytes) : (exponent z).1 ++ (exponent z).2 = z := by
  unfold exponent
  split
  · split_ifs with hdigit hsign
    · exact congrArg (_ :: ·) (span_append _ _)
    · exact congrArg (_ :: _ :: ·) (span_append _ _)
    · rfl
  · rfl

theorem number_append (z : Bytes) : (number z).1 ++ (number z).2 = z := by
  rw [number]
  dsimp only
  rw [List.append_assoc, span_append, List.append_assoc, exponent_append, List.append_assoc,
    fraction_append]
  exact span_append _ _

theorem bracketed_append (z : Bytes) : (bracketed z).1 ++ (bracketed z).2 = z := by
  have happend := span_append (fun b => !isSpace b && b ≠ byte ')') z
  unfold bracketed
  split
  · rename_i s c rest hspan
    rw [hspan] at happend
    split_ifs with hc
    · rw [List.append_assoc]
      exact happend
    · exact happend
  · rename_i s hspan
    rw [hspan] at happend
    exact happend

/-- What stands in brackets is followed by a space, unless it has its end. -/
theorem bracketed_closed (h : (bracketed z).2 = d :: rest) (hd : isIdChar d = true) :
    ∃ s, (bracketed z).1 = s ++ [byte ')'] := by
  unfold bracketed at h ⊢
  split
  · rename_i s c rest' hspan
    simp only [hspan] at h
    split_ifs at h with hc
    · rw [if_pos hc, hc]
      exact ⟨s, rfl⟩
    · obtain ⟨rfl, rfl⟩ := List.cons.inj h
      have hnot := not_of_span (p := fun b => !isSpace b && b ≠ byte ')') (by rw [hspan])
      have hspace : isSpace c = true := by simpa [hc] using hnot
      rw [not_isIdChar_of_isSpace c hspace] at hd
      cases hd
  · rename_i s hspan
    simp only [hspan] at h
    cases h

theorem name_append (begun : Bool) (z : Bytes) : (name begun z).1 ++ (name begun z).2 = z := by
  induction begun, z using name.induct with
  | case1 begun => rw [name, List.nil_append]
  | case2 begun c z hc ih =>
    rw [name.eq_def]
    dsimp only
    rw [if_pos hc]
    exact congrArg (c :: ·) ih
  | case3 begun c z hc hopen =>
    rw [name.eq_def]
    dsimp only
    rw [if_neg hc, if_pos hopen]
    exact congrArg (_ :: ·) (bracketed_append z)
  | case4 begun c hc hopen d z hcolon ih =>
    rw [name.eq_def]
    dsimp only
    rw [if_neg hc, if_neg hopen, if_pos hcolon]
    exact congrArg (_ :: _ :: ·) ih
  | case5 begun c hc hopen d z hcolon =>
    rw [name.eq_def]
    dsimp only
    rw [if_neg hc, if_neg hopen, if_neg hcolon, List.nil_append]
  | case6 begun c hc hopen =>
    rw [name.eq_def]
    dsimp only
    rw [if_neg hc, if_neg hopen, List.nil_append]

/-- The name of a parameter goes on up to what is no name, unless it ends in brackets. -/
theorem name_closed {begun : Bool} (h : (name begun z).2 = d :: rest) (hd : isIdChar d = true) :
    ∃ s, (name begun z).1 = s ++ [byte ')'] := by
  induction begun, z using name.induct with
  | case1 begun => rw [name] at h; cases h
  | case2 begun c z hc ih =>
    rw [name.eq_def] at h ⊢
    dsimp only at h ⊢
    rw [if_pos hc] at h ⊢
    obtain ⟨s, hs⟩ := ih h
    exact ⟨c :: s, congrArg (c :: ·) hs⟩
  | case3 begun c z hc hopen =>
    rw [name.eq_def] at h ⊢
    dsimp only at h ⊢
    rw [if_neg hc, if_pos hopen] at h ⊢
    obtain ⟨s, hs⟩ := bracketed_closed h hd
    exact ⟨_ :: s, congrArg (_ :: ·) hs⟩
  | case4 begun c hc hopen d z hcolon ih =>
    rw [name.eq_def] at h ⊢
    dsimp only at h ⊢
    rw [if_neg hc, if_neg hopen, if_pos hcolon] at h ⊢
    obtain ⟨s, hs⟩ := ih h
    exact ⟨_ :: _ :: s, congrArg (_ :: _ :: ·) hs⟩
  | case5 begun c hc hopen d z hcolon =>
    rw [name.eq_def] at h
    dsimp only at h
    rw [if_neg hc, if_neg hopen, if_neg hcolon] at h
    obtain ⟨rfl, -⟩ := List.cons.inj h
    exact absurd hd hc
  | case6 begun c hc hopen =>
    rw [name.eq_def] at h
    dsimp only at h
    rw [if_neg hc, if_neg hopen] at h
    obtain ⟨rfl, -⟩ := List.cons.inj h
    exact absurd hd hc

theorem operator_append (c : UInt8) (z : Bytes) : (operator c z).1 ++ (operator c z).2 = c :: z := by
  unfold operator
  split
  · rename_i op hop
    have hpre : op <+: c :: z := by simpa using List.find?_some hop
    obtain ⟨rest, hrest⟩ := hpre
    rw [← hrest, List.drop_left]
  · rfl

/-! ## Tokens -/

/-- The last byte of a token that a word follows without a space. -/
def Apart (t : Token) : Prop :=
  ∃ last, t.bytes.getLast? = some last ∧ isWordByte last = false ∧
    (isQuote last = true → t.kind = .quoted ∨ t.kind = .blob)

theorem apart_of_append {t : Token} (h : t.bytes = s ++ [b]) (hb : plain b = true) :
    Apart t := by
  have hboth : isWordByte b = false ∧ isQuote b = false := by simpa [plain] using hb
  refine ⟨b, by rw [h, List.getLast?_concat], hboth.1, fun hquote => ?_⟩
  rw [hboth.2] at hquote
  cases hquote

theorem apart_of_all {t : Token} (hne : t.bytes ≠ []) (h : ∀ b ∈ t.bytes, plain b = true) : Apart t :=
  apart_of_append (List.dropLast_append_getLast hne).symm (h _ (List.getLast_mem hne))

theorem apart_of_quote {t : Token} (h : t.bytes = s ++ [b])
    (hb : isWordByte b = false) (hkind : t.kind = .quoted ∨ t.kind = .blob) : Apart t :=
  ⟨b, by rw [h, List.getLast?_concat], hb, fun _ => hkind⟩

/-- What the first token of a text is. -/
structure Reads (z : Bytes) (r : Token × Bytes) : Prop where
  append : r.1.bytes ++ r.2 = z
  ne_nil : r.1.bytes ≠ []
  longest : r.1.kind = .word → ∀ d rest, r.2 = d :: rest → isIdChar d = false
  semicolon : r.1.kind = .semicolon → r.1.bytes = [byte ';']
  apart : (r.1.kind = .numbered → r.1.bytes.length = 1) → ∀ d rest, r.2 = d :: rest →
    isAlpha d = true → Apart r.1

theorem reads_space (hc : c ∈ [9, 10, 12, 13, 32]) : Reads (c :: z) (token .space [c] (z.span isSpace)) := by
  refine ⟨congrArg (c :: ·) (span_append _ _), List.cons_ne_nil _ _, fun h => (nomatch h), fun h => (nomatch h), fun _ d rest _ _ => ?_⟩
  refine apart_of_all (List.cons_ne_nil _ _) fun b hb => plain_of_isSpace b ?_
  rcases List.mem_cons.mp hb with rfl | hb
  · revert hc
    exact isSpace_of_mem b
  · rw [List.span_eq_takeWhile_dropWhile] at hb
    exact List.mem_takeWhile_imp hb

theorem reads_byteOrderMark (hc : c = 0xef) (hz : [0xbb, 0xbf].isPrefixOf z = true) :
    Reads (c :: z) (token .space (c :: z.take 2) ([], z.drop 2)) := by
  refine ⟨?_, List.cons_ne_nil _ _, fun h => (nomatch h), fun h => (nomatch h), fun _ d rest _ _ => ?_⟩
  · show c :: (z.take 2 ++ []) ++ z.drop 2 = c :: z
    rw [List.append_nil, List.cons_append, List.take_append_drop]
  · obtain ⟨rest, rfl⟩ := List.isPrefixOf_iff_prefix.mp hz
    subst hc
    refine apart_of_all (List.cons_ne_nil _ _) ?_
    have hplain : ([0xef, 0xbb, 0xbf] : Bytes).all plain = true := rfl
    exact List.all_eq_true.mp hplain

/-- A comment goes on up to the end of its line. -/
theorem reads_line : Reads (c :: z) (token .comment [c] (z.span (· ≠ byte '\n'))) := by
  refine ⟨congrArg (c :: ·) (span_append _ _), List.cons_ne_nil _ _, fun h => (nomatch h), fun h => (nomatch h), fun _ d rest h hd => ?_⟩
  have hnot := not_of_span h
  obtain rfl : d = byte '\n' := by simpa using hnot
  cases hd

theorem reads_block :
    Reads (c :: z) (token .comment (c :: z.take 1) (comment (z.drop 1))) := by
  refine ⟨?_, List.cons_ne_nil _ _, fun h => (nomatch h), fun h => (nomatch h), fun _ d rest h hd => ?_⟩
  · show c :: z.take 1 ++ (comment (z.drop 1)).1 ++ (comment (z.drop 1)).2 = c :: z
    rw [List.append_assoc, comment_append, List.cons_append, List.take_append_drop]
  · have h' : (comment (z.drop 1)).2 = d :: rest := h
    obtain ⟨s, hs⟩ := comment_closed (z := z.drop 1) (by rw [h']; exact List.cons_ne_nil _ _)
    refine apart_of_append (s := c :: z.take 1 ++ s) (b := byte '/') ?_ (by decide)
    show c :: z.take 1 ++ (comment (z.drop 1)).1 = _
    rw [hs, List.append_assoc]

theorem reads_semicolon : Reads (byte ';' :: z) (token .semicolon [byte ';'] ([], z)) :=
  ⟨rfl, List.cons_ne_nil _ _, fun h => (nomatch h), fun _ => rfl,
    fun _ _ _ _ _ => apart_of_append (s := []) (b := byte ';') rfl (by decide)⟩

theorem reads_quoted (hc : isWordByte c = false) : Reads (c :: z) (token .quoted [c] (quoted c z)) := by
  refine ⟨congrArg (c :: ·) (quoted_append _ _), List.cons_ne_nil _ _, fun h => (nomatch h), fun h => (nomatch h), fun _ d rest h hd => ?_⟩
  have h' : (quoted c z).2 = d :: rest := h
  obtain ⟨s, hs⟩ := quoted_closed (q := c) (z := z) (by rw [h']; exact List.cons_ne_nil _ _)
  exact apart_of_quote (s := c :: s) (congrArg (c :: ·) hs) hc (.inl rfl)

/-- A token that has an end has it, if something follows. -/
theorem reads_upTo {kind : Kind} {begin : Bytes} (hz : begin ++ rest = z) (hne : begin ≠ []) (hq : isWordByte q = false)
    (hkind : kind = .quoted ∨ kind = .blob) : Reads z (token kind begin (upTo q rest)) := by
  refine ⟨?_, List.append_ne_nil_of_left_ne_nil hne _, ?_, ?_, fun _ d rest' h hd => ?_⟩
  · show begin ++ (upTo q rest).1 ++ (upTo q rest).2 = z
    rw [List.append_assoc, upTo_append, hz]
  · intro h
    obtain rfl : kind = .word := h
    rcases hkind with hkind | hkind
    · cases hkind
    · cases hkind
  · intro h
    obtain rfl : kind = .semicolon := h
    rcases hkind with hkind | hkind
    · cases hkind
    · cases hkind
  · have h' : (upTo q rest).2 = d :: rest' := h
    obtain ⟨s, hs⟩ := upTo_closed (q := q) (z := rest) (by rw [h']; exact List.cons_ne_nil _ _)
    refine apart_of_quote (s := begin ++ s) (b := q) ?_ hq hkind
    show begin ++ (upTo q rest).1 = _
    rw [hs, List.append_assoc]

theorem number_ne_nil (hc : isDigit c = true ∨ c = byte '.') : (number (c :: z)).1 ≠ [] := by
  rcases hc with hdigit | rfl
  · have hwhole : (digits (c :: z)).1 ≠ [] := by
      rw [digits, List.span_eq_takeWhile_dropWhile]
      simp [hdigit]
    rw [number]
    exact List.append_ne_nil_of_left_ne_nil
      (List.append_ne_nil_of_left_ne_nil (List.append_ne_nil_of_left_ne_nil hwhole _) _) _
  · have hwhole : digits (byte '.' :: z) = ([], byte '.' :: z) := by
      rw [digits, List.span_eq_takeWhile_dropWhile]
      simp [show isDigit (byte '.') = false by decide, show byte '.' ≠ byte '_' by decide]
    rw [number, hwhole, fraction, if_pos rfl]
    exact List.cons_ne_nil _ _

theorem reads_number (hc : isDigit c = true ∨ c = byte '.') :
    Reads (c :: z) (token .number [] (number (c :: z))) := by
  refine ⟨number_append _, number_ne_nil hc, fun h => (nomatch h), fun h => (nomatch h), fun _ d rest h hd => ?_⟩
  have hnot : isIdChar d = false := not_of_span h
  rw [isIdChar_of_isAlpha hd] at hnot
  cases hnot

theorem reads_numbered (hc : plain c = true) : Reads (c :: z) (token .numbered [c] (z.span isDigit)) := by
  refine ⟨congrArg (c :: ·) (span_append _ _), List.cons_ne_nil _ _, fun h => (nomatch h),
    fun h => (nomatch h), fun hlength _ _ _ _ => ?_⟩
  have hnil : (z.span isDigit).1 = [] := by
    have hone : ([c] ++ (z.span isDigit).1).length = 1 := hlength rfl
    rw [List.length_append, List.length_singleton] at hone
    exact List.length_eq_zero_iff.mp (by omega)
  exact apart_of_append (s := []) (congrArg ([c] ++ ·) hnil) hc

theorem reads_named : Reads (c :: z) (token .named [c] (name false z)) := by
  refine ⟨congrArg (c :: ·) (name_append _ _), List.cons_ne_nil _ _, fun h => (nomatch h), fun h => (nomatch h), fun _ d rest h hd => ?_⟩
  obtain ⟨s, hs⟩ := name_closed h (isIdChar_of_isAlpha hd)
  exact apart_of_append (s := c :: s) (b := byte ')') (congrArg (c :: ·) hs) (by decide)

theorem reads_word : Reads (c :: z) (token .word [c] (z.span isIdChar)) := by
  refine ⟨congrArg (c :: ·) (span_append _ _), List.cons_ne_nil _ _, fun _ d rest h => not_of_span h, fun h => (nomatch h),
    fun _ d rest h hd => ?_⟩
  have hnot : isIdChar d = false := not_of_span h
  rw [isIdChar_of_isAlpha hd] at hnot
  cases hnot

theorem reads_operator (hc : plain c = true) : Reads (c :: z) (token .operator [] (operator c z)) := by
  have hplain : (operators.all fun op => !op.isEmpty && op.all plain) = true := rfl
  have hall : ∀ op ∈ operators, op ≠ [] ∧ ∀ b ∈ op, plain b = true := by
    simpa using hplain
  have hop : (operator c z).1 ≠ [] ∧ ∀ b ∈ (operator c z).1, plain b = true := by
    unfold operator
    split
    · rename_i op hfind
      exact hall op (List.mem_of_find?_eq_some hfind)
    · refine ⟨List.cons_ne_nil _ _, fun b hb => ?_⟩
      rw [List.mem_singleton.mp hb]
      exact hc
  exact ⟨operator_append c z, hop.1, fun h => (nomatch h), fun h => (nomatch h),
    fun _ _ _ _ _ => apart_of_all hop.1 hop.2⟩

theorem reads_next (c : UInt8) (z : Bytes) : Reads (c :: z) (next c z) := by
  unfold next
  dsimp only
  by_cases hspace : c ∈ [9, 10, 12, 13, 32]
  · rw [if_pos hspace]
    exact reads_space hspace
  rw [if_neg hspace]
  by_cases hbom : c = 0xef ∧ [0xbb, 0xbf].isPrefixOf z
  · rw [if_pos hbom]
    exact reads_byteOrderMark hbom.1 hbom.2
  rw [if_neg hbom]
  by_cases hline : c = byte '-' ∧ decide (z.head? = some (byte '-')) = true
  · rw [if_pos hline]
    exact reads_line
  rw [if_neg hline]
  by_cases hblock : c = byte '/' ∧ decide (z.head? = some (byte '*')) = true ∧ 1 < z.length
  · rw [if_pos hblock]
    exact reads_block
  rw [if_neg hblock]
  by_cases hsemi : c = byte ';'
  · rw [if_pos hsemi, hsemi]
    exact reads_semicolon
  rw [if_neg hsemi]
  by_cases hquote : c ∈ [byte '\'', byte '"', byte (Char.ofNat 96)]
  · rw [if_pos hquote]
    exact reads_quoted (not_isWordByte_of_mem c hquote)
  rw [if_neg hquote]
  by_cases hbracket : c = byte '['
  · rw [if_pos hbracket]
    exact reads_upTo rfl (List.cons_ne_nil _ _) (by decide) (.inl rfl)
  rw [if_neg hbracket]
  by_cases hblob : lower c = byte 'x' ∧ decide (z.head? = some (byte '\'')) = true
  · rw [if_pos hblob]
    exact reads_upTo (congrArg (c :: ·) (List.take_append_drop 1 z)) (List.cons_ne_nil _ _) (by decide) (.inr rfl)
  rw [if_neg hblob]
  by_cases hnumber : isDigit c = true ∨ c = byte '.' ∧ z.head?.any isDigit = true
  · rw [if_pos hnumber]
    exact reads_number (hnumber.imp_right And.left)
  rw [if_neg hnumber]
  by_cases hnumbered : c = byte '?'
  · rw [if_pos hnumbered, hnumbered]
    exact reads_numbered (by decide)
  rw [if_neg hnumbered]
  by_cases hnamed : c ∈ [byte '$', byte '@', byte ':', byte '#']
  · rw [if_pos hnamed]
    exact reads_named
  rw [if_neg hnamed]
  by_cases hword : isIdChar c = true
  · rw [if_pos hword]
    exact reads_word
  rw [if_neg hword]
  exact reads_operator (plain_of_not_isIdChar c (by simpa using hword) hquote)

/-! ## The tokens of a text -/

/-- A text is what stands before one of its tokens, and then it is read on from that token. -/
theorem scan_append {fuel : Nat} {pre post : List Token} {t : Token} (hfuel : z.length ≤ fuel)
    (h : scan fuel z = pre ++ t :: post) :
    ∃ fuel' c z', z = pre.flatMap Token.bytes ++ c :: z' ∧ t = (next c z').1 ∧
      post = scan fuel' (next c z').2 ∧ (next c z').2.length ≤ fuel' := by
  induction pre generalizing fuel z with
  | nil =>
    cases fuel with
    | zero => cases h
    | succ fuel =>
      cases z with
      | nil => cases h
      | cons c z =>
        obtain ⟨rfl, rfl⟩ := List.cons.inj h
        have hlength := congrArg List.length (reads_next c z).append
        have hpos := List.length_pos_of_ne_nil (reads_next c z).ne_nil
        rw [List.length_append, List.length_cons] at hlength
        rw [List.length_cons] at hfuel
        exact ⟨fuel, c, z, rfl, rfl, rfl, by omega⟩
  | cons u pre ih =>
    cases fuel with
    | zero => cases h
    | succ fuel =>
      cases z with
      | nil => cases h
      | cons c z =>
        obtain ⟨rfl, htail⟩ := List.cons.inj h
        have happend := (reads_next c z).append
        have hlength := congrArg List.length happend
        have hpos := List.length_pos_of_ne_nil (reads_next c z).ne_nil
        rw [List.length_append, List.length_cons] at hlength
        rw [List.length_cons] at hfuel
        obtain ⟨fuel', c', z', hz, rest⟩ := ih (by omega) htail
        refine ⟨fuel', c', z', ?_, rest⟩
        rw [List.flatMap_cons, List.append_assoc, ← hz, happend]

theorem bytes_of_semicolon {fuel : Nat} {t : Token} (hfuel : z.length ≤ fuel) (ht : t ∈ scan fuel z)
    (hkind : t.kind = .semicolon) : t.bytes = [byte ';'] := by
  obtain ⟨pre, post, hscan⟩ := List.append_of_mem ht
  obtain ⟨-, c, z', -, rfl, -⟩ := scan_append hfuel hscan
  exact (reads_next c z').semicolon hkind

/-- The first token of what is left begins where the one before it ends. -/
theorem head?_scan {fuel : Nat} (hfuel : z.length ≤ fuel) :
    ((scan fuel z).head?.bind fun t => t.bytes.head?) = z.head? := by
  cases z with
  | nil =>
    cases fuel with
    | zero => rfl
    | succ fuel => rfl
  | cons c z =>
    cases fuel with
    | zero => cases hfuel
    | succ fuel =>
      show (next c z).1.bytes.head? = some c
      obtain ⟨b, s, hb⟩ := List.exists_cons_of_ne_nil (reads_next c z).ne_nil
      have happend := (reads_next c z).append
      rw [hb] at happend ⊢
      rw [(List.cons.inj happend).1, List.head?_cons]

theorem mem_splitOnPPrepend {α : Type} {p : α → Bool} {l xs acc : List α}
    (h : l ∈ List.splitOnPPrepend p xs acc) :
    ∃ a b, acc.reverse ++ xs = a ++ l ++ b ∧ (∀ x ∈ a.getLast?, p x = true) ∧
      ∀ x ∈ b.head?, p x = true := by
  induction xs generalizing acc with
  | nil =>
    rw [List.splitOnPPrepend_nil, List.mem_singleton] at h
    exact ⟨[], [], by rw [h, List.nil_append], by simp, by simp⟩
  | cons y xs ih =>
    by_cases hy : p y = true
    · rw [List.splitOnPPrepend_cons_pos hy, List.mem_cons] at h
      rcases h with rfl | h
      · refine ⟨[], y :: xs, rfl, by simp, fun x hx => ?_⟩
        rw [← Option.some.inj hx]
        exact hy
      · obtain ⟨a, b, hxs, ha, hb⟩ := @ih [] h
        refine ⟨acc.reverse ++ y :: a, b, ?_, fun x hx => ?_, hb⟩
        · rw [List.reverse_nil, List.nil_append] at hxs
          rw [hxs]
          simp
        · cases a with
          | nil =>
            rw [List.getLast?_concat] at hx
            rw [← Option.some.inj hx]
            exact hy
          | cons z a =>
            rw [List.getLast?_append, List.getLast?_cons_cons] at hx
            refine ha x ?_
            simpa using hx
    · rw [Bool.not_eq_true] at hy
      rw [List.splitOnPPrepend_cons_neg hy] at h
      obtain ⟨a, b, hxs, hends⟩ := ih h
      refine ⟨a, b, ?_, hends⟩
      rw [← hxs, List.reverse_cons, List.append_assoc, List.singleton_append]

/-- A part of a list that is split stands between two of the places. -/
theorem mem_splitOnP {α : Type} {p : α → Bool} {l xs : List α} (h : l ∈ xs.splitOnP p) :
    ∃ a b, xs = a ++ l ++ b ∧ (∀ x ∈ a.getLast?, p x = true) ∧ ∀ x ∈ b.head?, p x = true :=
  @mem_splitOnPPrepend _ _ _ _ [] h

end SqlTokens
