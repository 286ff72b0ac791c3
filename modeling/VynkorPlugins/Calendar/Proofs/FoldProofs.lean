import VynkorPlugins.Calendar.Ics

/-!
# Folding and unfolding

A line is folded exactly where it has its cuts, into physical lines of at most 72 bytes, and unfolding
gives the line back.
-/

namespace Calendar

open String (utf8Len)

variable {bytes : List (Option Char)} {line pre post out : List Char} {pos p q : Nat}

/-! ## Bytes -/

theorem charBytes_length (ch : Char) : (charBytes ch).length = ch.utf8Size := by
  have hpos := ch.utf8Size_pos
  unfold charBytes
  rw [List.length_cons, List.length_replicate]
  omega

theorem lineBytes_append (l l' : List Char) : lineBytes (l ++ l') = lineBytes l ++ lineBytes l' :=
  List.flatMap_append

theorem lineBytes_length (line : List Char) : (lineBytes line).length = utf8Len line := by
  induction line with
  | nil => rfl
  | cons ch line ih =>
    have hcons : lineBytes (ch :: line) = charBytes ch ++ lineBytes line := rfl
    rw [hcons, List.length_append, charBytes_length, ih, String.utf8Len_cons, Nat.add_comm]

theorem filterMap_charBytes (ch : Char) : (charBytes ch).filterMap id = [ch] := by
  unfold charBytes
  have hrest : (List.replicate (ch.utf8Size - 1) (none : Option Char)).filterMap id = [] := by
    rw [List.filterMap_eq_nil_iff]
    intro o ho
    exact List.eq_of_mem_replicate ho
  rw [List.filterMap_cons_some (by rfl), hrest]

theorem filterMap_lineBytes (line : List Char) : (lineBytes line).filterMap id = line := by
  induction line with
  | nil => rfl
  | cons ch line ih =>
    have hcons : lineBytes (ch :: line) = charBytes ch ++ lineBytes line := rfl
    rw [hcons, List.filterMap_append, filterMap_charBytes, ih]
    rfl

/-- The part of a line between two of its characters. -/
theorem slice_mid (pre mid post : List Char) :
    slice (lineBytes (pre ++ mid ++ post)) (utf8Len pre) (utf8Len (pre ++ mid)) = mid := by
  unfold slice
  rw [lineBytes_append, lineBytes_append, List.append_assoc, ← lineBytes_length pre,
    List.drop_left, String.utf8Len_append, lineBytes_length, Nat.add_sub_cancel_left,
    ← lineBytes_length mid, List.take_left, filterMap_lineBytes]

/-- A position where a character begins, or the end, splits the line. -/
theorem split_of_isBoundary (h : isBoundary (lineBytes line) pos = true) :
    ∃ pre post, line = pre ++ post ∧ utf8Len pre = pos := by
  induction line generalizing pos with
  | nil =>
    refine ⟨[], [], rfl, ?_⟩
    unfold isBoundary at h
    cases pos with
    | zero => rfl
    | succ pos => simp [lineBytes] at h
  | cons ch line ih =>
    have hcons : lineBytes (ch :: line) = charBytes ch ++ lineBytes line := rfl
    by_cases hzero : pos = 0
    · exact ⟨[], ch :: line, rfl, hzero.symm⟩
    have hpos := ch.utf8Size_pos
    have hlen := charBytes_length ch
    by_cases hinside : pos < ch.utf8Size
    · -- inside of the first character no other one begins
      exfalso
      have hnone : (lineBytes (ch :: line))[pos]? = some none := by
        rw [hcons, List.getElem?_append_left (by omega)]
        unfold charBytes
        obtain ⟨pos, rfl⟩ := Nat.exists_eq_succ_of_ne_zero hzero
        rw [List.getElem?_cons_succ, List.getElem?_replicate, if_pos (by omega)]
      have hne : pos ≠ (lineBytes (ch :: line)).length := by
        rw [hcons, List.length_append]
        omega
      unfold isBoundary at h
      rw [hnone] at h
      simp [hne] at h
    · have hrest : isBoundary (lineBytes line) (pos - ch.utf8Size) = true := by
        unfold isBoundary at h ⊢
        rw [hcons, List.length_append, List.getElem?_append_right (by omega), hlen] at h
        rcases Bool.or_eq_true _ _ |>.mp h with h | h
        · have hend := of_decide_eq_true h
          rw [Bool.or_eq_true]
          exact .inl (decide_eq_true (by omega))
        · rw [h, Bool.or_true]
      obtain ⟨pre, post, rfl, hpre⟩ := ih hrest
      refine ⟨ch :: pre, post, rfl, ?_⟩
      rw [String.utf8Len_cons]
      omega

/-! ## Cuts -/

theorem cutAt_cut (bytes : List (Option Char)) (pos : Nat) : CutAt bytes pos (cut bytes pos) := by
  induction pos with
  | zero =>
    have hzero : cut bytes 0 = 0 := rfl
    rw [hzero]
    refine ⟨le_rfl, fun h => h, fun h => ?_, fun i hi hle => ?_⟩
    · omega
    · omega
  | succ pos ih =>
    rw [cut]
    split_ifs with hblank
    · obtain ⟨hpos, hblank⟩ := hblank
      refine ⟨Nat.le_succ_of_le ih.le, fun _ => ih.first hpos, ih.here, fun i hi hle => ?_⟩
      rcases Nat.lt_or_ge pos i with hlast | hle'
      · obtain rfl : i = pos + 1 := by omega
        exact hblank
      · exact ih.back i hi hle'
    · refine ⟨le_rfl, fun h => h, fun h hb => ?_, fun i hi hle => ?_⟩
      · exact hblank ⟨by omega, hb⟩
      · omega

theorem CutAt.unique {q' : Nat} (hpos : 0 < pos) (h : CutAt bytes pos q) (h' : CutAt bytes pos q') :
    q = q' := by
  have hfirst := h.first hpos
  have hfirst' := h'.first hpos
  rcases Nat.lt_trichotomy q q' with hlt | heq | hlt
  · exact absurd (h.back q' hlt h'.le) (h'.here (by omega))
  · exact heq
  · exact absurd (h'.back q hlt h.le) (h.here (by omega))

theorem cut_eq (hpos : 0 < pos) (h : CutAt bytes pos q) : cut bytes pos = q :=
  (cutAt_cut bytes pos).unique hpos h

/-! ## Physical lines -/

/-- The rest of a line is written as its segments, each behind a mark. -/
theorem foldRest_of_foldsFrom (hp : utf8Len pre = p) {left : Nat}
    (hleft : (lineBytes (pre ++ post)).length < p + left)
    (h : FoldsFrom (lineBytes (pre ++ post)) p) :
    ∃ segs : List (List Char), foldRest (lineBytes (pre ++ post)) left p =
        some (Rust.written (segs.map (List.cons ' '))) ∧
      segs.flatten = post ∧ ∀ seg ∈ segs, utf8Len seg ≤ 71 := by
  generalize hline : pre ++ post = line at h hleft
  have hlength := lineBytes_length line
  have hlen : utf8Len line = p + utf8Len post := by
    rw [← hline, String.utf8Len_append, hp]
  induction h generalizing pre post left with
  | @rest p hshort =>
    obtain ⟨left, rfl⟩ : ∃ left', left = left' + 1 := ⟨left - 1, by omega⟩
    refine ⟨[post], ?_, List.append_nil post, fun seg hseg => ?_⟩
    · have hslice : slice (lineBytes line) p (lineBytes line).length = post := by
        have hmid := slice_mid pre post []
        rw [List.append_nil, hline, hp] at hmid
        rw [hlength]
        exact hmid
      rw [foldRest, if_neg (by unfold FOLD_AT; omega), hslice, List.map_singleton, Rust.written_cons]
      rfl
    · obtain rfl := List.mem_singleton.mp hseg
      omega
  | @next p q hlong hcut hlt hchar _ ih =>
    obtain ⟨left, rfl⟩ : ∃ left', left = left' + 1 := ⟨left - 1, by omega⟩
    obtain ⟨pre', post', hsplit, hpre'⟩ := split_of_isBoundary hchar
    -- the segment is what lies between the two cuts
    obtain ⟨seg, rfl⟩ : ∃ seg, pre' = pre ++ seg := by
      have happend : pre ++ post = pre' ++ post' := by rw [hline, hsplit]
      rcases List.append_eq_append_iff.mp happend with ⟨seg, hpre, -⟩ | ⟨seg, hpre, -⟩
      · exact ⟨seg, hpre⟩
      · exfalso
        rw [hpre, String.utf8Len_append] at hp
        omega
    have hpost : post = seg ++ post' := by
      rw [hsplit, List.append_assoc] at hline
      exact List.append_cancel_left hline
    have hle := hcut.le
    rw [String.utf8Len_append] at hpre'
    have hlen' : utf8Len line = q + utf8Len post' := by
      rw [hsplit, String.utf8Len_append, String.utf8Len_append, hpre']
    have hq : utf8Len (pre ++ seg) = q := by rw [String.utf8Len_append, hpre']
    have hleft' : (lineBytes line).length < q + left := by omega
    obtain ⟨segs, hfold, hflatten, hshort⟩ := ih hq hsplit.symm hleft' hlen'
    refine ⟨seg :: segs, ?_, ?_, fun seg' hseg' => ?_⟩
    · have hcutq : cut (lineBytes line) (p + FOLD_AT - 1) = q := cut_eq (by unfold FOLD_AT; omega) hcut
      have hslice : slice (lineBytes line) p q = seg := by
        have hmid := slice_mid pre seg post'
        rw [← hsplit, hp, String.utf8Len_append, hp] at hmid
        rw [← hmid, ← hpre', hp]
      rw [foldRest, if_pos (by unfold FOLD_AT; omega), hcutq]
      simp only [hlt, hchar, and_self, if_true]
      rw [hfold, hslice, List.map_cons, Rust.written_cons]
      rfl
    · rw [List.flatten_cons, hflatten, hpost]
    · rcases List.mem_cons.mp hseg' with rfl | hseg'
      · omega
      · exact hshort seg' hseg'

/-- Without the cuts there is no end, or a panic. -/
theorem foldsFrom_of_foldRest {left : Nat} (h : (foldRest bytes left p).isSome = true) :
    FoldsFrom bytes p := by
  induction left generalizing p with
  | zero => cases h
  | succ left ih =>
    rw [foldRest] at h
    by_cases hlong : FOLD_AT - 1 < bytes.length - p
    · rw [if_pos hlong] at h
      unfold FOLD_AT at hlong
      dsimp only at h
      split_ifs at h with hcut
      swap
      · cases h
      rw [Option.isSome_map] at h
      exact .next (by omega) (cutAt_cut bytes (p + 71)) hcut.1 hcut.2 (ih h)
    · unfold FOLD_AT at hlong
      exact .rest (by omega)

/-- A line that has its cuts is written as its physical lines. -/
theorem fold_line_of_foldable (h : Foldable line) : ∃ raws, fold_line line = some (Rust.written raws) ∧
    IsFold line raws ∧ ∀ raw ∈ raws, utf8Len raw ≤ 72 := by
  have hlength := lineBytes_length line
  unfold fold_line
  rcases Nat.lt_or_ge 72 (lineBytes line).length with hlong | hshort
  swap
  · refine ⟨[line], ?_, ⟨line, [], rfl, List.append_nil line⟩, fun raw hraw => ?_⟩
    · rw [Rust.written_cons]
      exact if_pos hshort
    · obtain rfl := List.mem_singleton.mp hraw
      omega
  rcases h with h | ⟨q, hcut, hchar, hrest⟩
  · omega
  obtain ⟨pre, post, hsplit, hpre⟩ := split_of_isBoundary hchar
  have hle := hcut.le
  have hpos := hcut.first (by omega)
  have hleft : (lineBytes (pre ++ post)).length < q + (lineBytes line).length := by
    rw [← hsplit]
    omega
  have hfrom : FoldsFrom (lineBytes (pre ++ post)) q := by
    rw [← hsplit]
    exact hrest
  obtain ⟨segs, hfold, hflatten, hsegs⟩ := foldRest_of_foldsFrom hpre hleft hfrom
  refine ⟨pre :: segs.map (List.cons ' '), ?_, ⟨pre, segs, rfl, by rw [hflatten, hsplit]⟩,
    fun raw hraw => ?_⟩
  · have hcutq : cut (lineBytes line) (min FOLD_AT ((lineBytes line).length - 1)) = q := by
      have hmin : min FOLD_AT ((lineBytes line).length - 1) = 72 := by
        unfold FOLD_AT
        omega
      rw [hmin]
      exact cut_eq (by omega) hcut
    have hslice : slice (lineBytes line) 0 q = pre := by
      have hmid := slice_mid [] pre post
      rw [List.nil_append, ← hsplit, hpre] at hmid
      exact hmid
    rw [← hsplit] at hfold
    simp only [hcutq, hchar, if_true, hfold, hslice, Option.map_some, Rust.written_cons]
    exact if_neg (by unfold FOLD_AT; omega)
  · rcases List.mem_cons.mp hraw with rfl | hraw
    · omega
    · obtain ⟨seg, hseg, rfl⟩ := List.mem_map.mp hraw
      have hseg' := hsegs seg hseg
      rw [String.utf8Len_cons]
      have hone : (' ' : Char).utf8Size = 1 := rfl
      omega

theorem foldable_of_fold_line (h : (fold_line line).isSome = true) : Foldable line := by
  unfold fold_line at h
  dsimp only at h
  split_ifs at h with hshort hchar
  · exact .inl hshort
  · rw [Option.isSome_map] at h
    unfold FOLD_AT at hshort hchar h
    have hmin : min 72 ((lineBytes line).length - 1) = 72 := by omega
    rw [hmin] at hchar h
    exact .inr ⟨_, cutAt_cut _ _, hchar, foldsFrom_of_foldRest h⟩
  · cases h

/-! ## Unfolding -/

theorem foldl_unfoldLine_marks (lines : List (List Char)) (last : List Char)
    (segs : List (List Char)) :
    (segs.map (List.cons ' ')).foldl unfoldLine (lines ++ [last]) = lines ++ [last ++ segs.flatten] := by
  induction segs generalizing last with
  | nil => simp
  | cons seg segs ih =>
    have hone : unfoldLine (lines ++ [last]) (' ' :: seg) = lines ++ [last ++ seg] := by
      unfold unfoldLine
      rw [List.getLast?_concat]
      show (lines ++ [last]).dropLast ++ [last ++ seg] = _
      rw [List.dropLast_concat]
    rw [List.map_cons, List.foldl_cons, hone, ih, List.flatten_cons, List.append_assoc]

/-- The physical lines of a line are put together again. -/
theorem foldl_unfoldLine (raws : List (List Char)) (h : IsFold line raws) :
    raws.foldl unfoldLine [] = [line] := by
  obtain ⟨first, segs, rfl, rfl⟩ := h
  have hfirst : unfoldLine [] first = [first] := by
    unfold unfoldLine
    rw [List.getLast?_nil]
    split <;> first | rfl | contradiction
  rw [List.foldl_cons, hfirst]
  exact foldl_unfoldLine_marks [] first segs

theorem IsFold.newline {raws : List (List Char)} (h : IsFold line raws) (hline : '\n' ∉ line) :
    ∀ raw ∈ raws, '\n' ∉ raw := by
  obtain ⟨first, segs, rfl, rfl⟩ := h
  intro raw hraw hmem
  rcases List.mem_cons.mp hraw with rfl | hraw
  · exact hline (List.mem_append_left _ hmem)
  · obtain ⟨seg, hseg, rfl⟩ := List.mem_map.mp hraw
    rcases List.mem_cons.mp hmem with hmark | hmem
    · cases hmark
    · exact hline (List.mem_append_right _ (List.mem_flatten_of_mem hseg hmem))

/-- A line is folded, into physical lines of at most 75 bytes that unfold to it, exactly where it has
    its cuts. -/
theorem fold_line_folds_iff (hline : '\n' ∉ line ∧ '\r' ∉ line) :
    (∃ out, fold_line line = some out ∧ (∀ raw ∈ Rust.lines out, utf8Len raw ≤ 75) ∧
      unfold_lines out = [line]) ↔ Foldable line := by
  constructor
  · rintro ⟨out, hout, -⟩
    refine foldable_of_fold_line ?_
    rw [hout]
    rfl
  · intro h
    obtain ⟨raws, hfold, hraws, hshort⟩ := fold_line_of_foldable h
    have hlines : Rust.lines (Rust.written raws) = raws :=
      Rust.lines_written (hraws.newline hline.1)
    refine ⟨Rust.written raws, hfold, fun raw hraw => ?_, ?_⟩
    · rw [hlines] at hraw
      have hle := hshort raw hraw
      omega
    · unfold unfold_lines
      rw [hlines]
      exact foldl_unfoldLine raws hraws

/-- A line of a hundred letters. -/
theorem fold_line_folds_iff_sample :
    ∃ out, fold_line (List.replicate 100 'a') = some out ∧
      (∀ raw ∈ Rust.lines out, utf8Len raw ≤ 75) ∧ unfold_lines out = [List.replicate 100 'a'] := by
  have hfold : (fold_line (List.replicate 100 'a')).isSome = true := by
    decide
  refine (fold_line_folds_iff ⟨fun h => ?_, fun h => ?_⟩).mpr (foldable_of_fold_line hfold)
  · cases List.eq_of_mem_replicate h
  · cases List.eq_of_mem_replicate h

/-- A cut inside of an `é` panics, and one that goes back over 71 blanks is the one before it. -/
theorem fold_line_fails :
    fold_line (List.replicate 71 'a' ++ ['é']) = none ∧
      fold_line ('a' :: List.replicate 72 ' ') = none ∧
      ¬ ∀ line : List Char, '\n' ∉ line ∧ '\r' ∉ line → ∃ out, fold_line line = some out := by
  have hpanic : (fold_line (List.replicate 71 'a' ++ ['é'])).isNone = true := by
    decide
  have hloop : (fold_line ('a' :: List.replicate 72 ' ')).isNone = true := by
    decide
  refine ⟨Option.isNone_iff_eq_none.mp hpanic, Option.isNone_iff_eq_none.mp hloop, fun h => ?_⟩
  obtain ⟨out, hout⟩ := h (List.replicate 71 'a' ++ ['é']) (by decide)
  rw [hout] at hpanic
  cases hpanic

end Calendar
