import VynkorPlugins.Base.Proofs.SqlTokensProofs
import VynkorPlugins.Database.Handler

/-!
# The filter for ATTACH

The filter finds every keyword ATTACH that does not stand right behind a quoted token or a parameter.
-/

namespace Database

open SqlTokens

variable {sql : Bytes} {i pos : Nat}

/-! ## The loop -/

/-- The first occurrence is not behind any other. -/
theorem find_from_le {haystack : Bytes} (hi : i ≤ pos) (h : needle <+: haystack.drop pos) :
    ∃ first, find_from haystack needle i = some first ∧ i ≤ first ∧ first ≤ pos := by
  have hpos : pos < haystack.length := by
    by_contra hlong
    rw [List.drop_eq_nil_of_le (Nat.not_lt.mp hlong)] at h
    exact absurd (List.prefix_nil.mp h) (by decide)
  have hmatch : needle.isPrefixOf (haystack.drop pos) = true := List.isPrefixOf_iff_prefix.mpr h
  unfold find_from
  cases hfind : (List.range' i (haystack.length - i)).find? fun pos =>
      needle.isPrefixOf (haystack.drop pos) with
  | none =>
    have hnone := List.find?_eq_none.mp hfind pos (List.mem_range'_1.mpr ⟨hi, by omega⟩)
    exact absurd hmatch hnone
  | some first =>
    obtain ⟨-, hmem, hbefore⟩ := List.find?_range'_eq_some.mp hfind
    refine ⟨first, rfl, (List.mem_range'_1.mp hmem).1, Nat.not_lt.mp fun hlt => ?_⟩
    have hnot := hbefore pos hi hlt
    rw [hmatch] at hnot
    cases hnot

/-- The loop goes on until it is at a bare word. -/
theorem rejects_from_of_bare_word {bytes : Bytes} {fuel : Nat} (hi : i ≤ pos)
    (h : needle <+: bytes.drop pos) (hbare : bare_word bytes pos = true)
    (hfuel : bytes.length < i + fuel) : rejects_from bytes fuel i = true := by
  induction fuel generalizing i with
  | zero =>
    rw [List.drop_eq_nil_of_le (by omega)] at h
    exact absurd (List.prefix_nil.mp h) (by decide)
  | succ fuel ih =>
    obtain ⟨first, hfirst, hle, hlast⟩ := find_from_le hi h
    rw [rejects_from, hfirst]
    dsimp only
    by_cases heq : first = pos
    · rw [heq, hbare, Bool.true_or]
    · rw [ih (by omega) (by omega), Bool.or_true]

/-! ## A word between two texts -/

/-- A quote is not the lower case of another byte. -/
theorem eq_of_map_lower {o : Option UInt8} {q : UInt8} (hq : isQuote q = true)
    (h : o.map lower = some q) : o = some q := by
  obtain ⟨b, rfl, rfl⟩ := Option.map_eq_some_iff.mp h
  rw [isQuote_lower] at hq
  rw [lower_of_isQuote b hq]

theorem head?_of_isKeyword {t : Token} (h : t.isKeyword "attach" = true) :
    ∃ b, t.bytes.head? = some b ∧ isAlpha b = true := by
  rw [Token.isKeyword, Bool.and_eq_true] at h
  have hmap : t.bytes.map lower = "attach".toList.map byte := by simpa using h.2
  cases hb : t.bytes with
  | nil =>
    rw [hb] at hmap
    cases hmap
  | cons b s =>
    rw [hb, List.map_cons] at hmap
    exact ⟨b, rfl, isAlpha_of_lower b (List.cons.inj hmap).1⟩

theorem bare_word_between {a w b : Bytes} (hw : w.map lower = needle)
    (hbefore : ∀ x ∈ a.getLast?, isWordByte x = false) (hafter : ∀ x ∈ b.head?, isWordByte x = false)
    (hquote : ∀ q, isQuote q = true → a.getLast? = some q → b.head? ≠ some q) :
    bare_word ((a ++ w ++ b).map lower) a.length = true := by
  have hlength : needle.length = w.length := by rw [← hw, List.length_map]
  have hbytes : (a ++ w ++ b).map lower = a.map lower ++ (w.map lower ++ b.map lower) := by
    rw [List.map_append, List.map_append, List.append_assoc]
  have hb : (if a.length = 0 then none else ((a ++ w ++ b).map lower)[a.length - 1]?) =
      a.getLast?.map lower := by
    split_ifs with hnil
    · rw [List.length_eq_zero_iff.mp hnil]
      rfl
    · rw [hbytes, List.getElem?_append_left (by rw [List.length_map]; omega), List.getElem?_map,
        List.getLast?_eq_getElem?]
  have ha : ((a ++ w ++ b).map lower)[a.length + needle.length]? = b.head?.map lower := by
    rw [hlength, hbytes, List.getElem?_append_right (by rw [List.length_map]; omega),
      List.getElem?_append_right (by simp), List.getElem?_map, List.head?_eq_getElem?]
    simp
  have hall : ∀ o : Option UInt8, (∀ x ∈ o, isWordByte x = false) →
      ((o.map lower).all fun x => !isWordByte x) = true := by
    intro o ho
    rw [Option.all_map, Option.all_eq_true]
    rintro x hx
    show (!isWordByte (lower x)) = true
    rw [isWordByte_lower, ho x hx]
    rfl
  unfold bare_word
  dsimp only
  rw [hb, ha, hall _ hbefore, hall _ hafter, Bool.true_and, Bool.true_and, Bool.not_eq_true',
    Bool.and_eq_false_iff]
  cases hlast : (a.getLast?.map lower).filter isQuote with
  | none => exact .inl rfl
  | some q =>
    refine .inr (decide_eq_false fun heq => ?_)
    obtain ⟨hmap, hq⟩ := Option.filter_eq_some_iff.mp hlast
    obtain ⟨hmap', -⟩ := Option.filter_eq_some_iff.mp heq.symm
    exact hquote q hq (eq_of_map_lower hq hmap) (eq_of_map_lower hq hmap')

/-! ## A keyword of a text -/

/-- A token that a word follows ends in no part of a word, and in a quote only if it is quoted. -/
theorem apart_before {fuel : Nat} {z : Bytes} {pre post : List Token} {p t : Token}
    (hfuel : z.length ≤ fuel) (h : scan fuel z = pre ++ p :: t :: post)
    (ht : t.isKeyword "attach" = true) (hplain : ¬ hides p post.head?) : Apart p := by
  obtain ⟨fuel', c, z', -, rfl, hrest, hfuel'⟩ := scan_append hfuel h
  have hhead := head?_scan hfuel'
  rw [← hrest] at hhead
  obtain ⟨b, hb, halpha⟩ := head?_of_isKeyword ht
  rw [List.head?_cons, Option.bind_some, hb] at hhead
  obtain ⟨rest, hz⟩ := List.head?_eq_some_iff.mp hhead.symm
  refine (reads_next c z').apart (fun hkind => ?_) b rest hz halpha
  by_contra hlength
  exact hplain (.inl ⟨hkind, hlength⟩)

theorem rejects_of_tokens {pre post : List Token} {t : Token} (h : tokens sql = pre ++ t :: post)
    (ht : t.isKeyword "attach" = true) (hplain : ∀ p ∈ pre.getLast?, ¬ hides p post.head?) :
    rejects_attach sql = true := by
  have hsql : sql.takeWhile (· ≠ 0) ++ sql.dropWhile (· ≠ 0) = sql := List.takeWhile_append_dropWhile
  have htail : ∀ b ∈ (sql.dropWhile (· ≠ 0)).head?, b = 0 := by
    intro b hb
    obtain ⟨rest, hrest⟩ := List.head?_eq_some_iff.mp hb
    simpa using not_of_dropWhile hrest
  unfold tokens at h
  dsimp only at h
  generalize sql.takeWhile (fun b => decide (b ≠ 0)) = text at h hsql
  generalize sql.dropWhile (fun b => decide (b ≠ 0)) = tail at hsql htail
  have hscan := h
  have hkeyword := ht
  obtain ⟨fuel', c, z', htext, rfl, rfl, hfuel'⟩ := scan_append (Nat.le_refl _) h
  have hreads := reads_next c z'
  have hhead := head?_scan hfuel'
  have hwhole : sql = pre.flatMap Token.bytes ++ (next c z').1.bytes ++ ((next c z').2 ++ tail) := by
    rw [← hsql, htext, ← hreads.append]
    simp only [List.append_assoc]
  rw [Token.isKeyword, Bool.and_eq_true, decide_eq_true_iff, decide_eq_true_iff] at ht
  have hlast : ∀ x ∈ (pre.flatMap Token.bytes).getLast?, ∃ p ∈ pre.getLast?, Apart p ∧
      p.bytes.getLast? = some x := by
    intro x hx
    rcases List.eq_nil_or_concat' pre with rfl | ⟨pre', p, rfl⟩
    · cases hx
    · rw [List.append_assoc] at hscan
      have hp : p ∈ (pre' ++ [p]).getLast? := by rw [List.getLast?_concat]; rfl
      have hapart := apart_before (Nat.le_refl _) hscan hkeyword (hplain p hp)
      obtain ⟨last, hbytes, -⟩ := id hapart
      rw [List.flatMap_append, List.flatMap_singleton, List.getLast?_append, hbytes, Option.some_or] at hx
      obtain rfl := Option.some.inj hx
      exact ⟨p, hp, hapart, hbytes⟩
  -- What follows the keyword: the rest of the text, or the byte that ends it.
  have hafter : ∀ x ∈ ((next c z').2 ++ tail).head?, x ∈ (next c z').2.head? ∨ x = 0 := by
    intro x hx
    cases hrest : (next c z').2 with
    | nil =>
      rw [hrest] at hx
      exact .inr (htail x hx)
    | cons d rest =>
      rw [hrest] at hx
      exact .inl hx
  unfold rejects_attach
  dsimp only
  rw [hwhole]
  refine @rejects_from_of_bare_word 0 (pre.flatMap Token.bytes).length _ _ (Nat.zero_le _) ?_ ?_ (by omega)
  · rw [List.map_append, List.map_append, List.append_assoc, List.drop_left' (List.length_map _), ht.2]
    exact List.prefix_append _ _
  · refine bare_word_between ht.2 ?_ ?_ ?_
    · intro x hx
      obtain ⟨p, -, ⟨last, hbytes, hword, -⟩, hx'⟩ := hlast x hx
      obtain rfl := Option.some.inj (hbytes.symm.trans hx')
      exact hword
    · intro x hx
      rcases hafter x hx with hx | rfl
      · obtain ⟨rest, hrest⟩ := List.head?_eq_some_iff.mp hx
        exact not_isWordByte_of_not_isIdChar x (hreads.longest ht.1 x rest hrest)
      · rfl
    · intro q hq hbefore hq'
      obtain ⟨p, hp, ⟨last, hbytes, -, hkind⟩, hp'⟩ := hlast q hbefore
      obtain rfl := Option.some.inj (hbytes.symm.trans hp')
      rcases hafter last hq' with hq' | rfl
      · exact hplain p hp (.inr ⟨hkind hq, last, hq, hbytes, hhead.trans hq'⟩)
      · cases hq

/-- Spaces and comments hide nothing, so the keyword that begins a statement is not hidden. -/
theorem not_hides_of_leading {before : List Token} {following : Option Token}
    (h : ∀ p ∈ before, p.kind = .space ∨ p.kind = .comment) :
    ∀ p ∈ before.getLast?, ¬ hides p following := by
  intro p hp hhides
  rcases h p (List.mem_of_mem_getLast? hp) with hkind | hkind
  · simp [hides, hkind] at hhides
  · simp [hides, hkind] at hhides

/-- Where a statement has the keyword ATTACH, not only as its first one, the text is rejected, unless the
    token right before the keyword hides it. -/
theorem attach_rejected {stmt before after : List Token} {t : Token} (hstmt : stmt ∈ statements sql)
    (h : stmt = before ++ t :: after) (ht : t.isKeyword "attach" = true)
    (hplain : ∀ p ∈ before.getLast?, ¬ hides p after.head?) : rejects_attach sql = true := by
  obtain ⟨a, b, htokens, ha, hb⟩ := mem_splitOnP hstmt
  subst h
  have hwhole : tokens sql = (a ++ before) ++ t :: (after ++ b) := by
    rw [htokens]
    simp only [List.append_assoc, List.cons_append]
  refine rejects_of_tokens hwhole ht fun p hp hhides => ?_
  rcases List.eq_nil_or_concat' before with rfl | ⟨before', p', rfl⟩
  · -- The keyword is the first token of the statement, so a semicolon is before it.
    rw [List.append_nil] at hp
    have hkind : p.kind = .semicolon := by simpa using ha p hp
    rcases hhides with ⟨hnumbered, -⟩ | ⟨hquoted | hblob, -⟩
    · rw [hkind] at hnumbered
      cases hnumbered
    · rw [hkind] at hquoted
      cases hquoted
    · rw [hkind] at hblob
      cases hblob
  · rw [← List.append_assoc, List.getLast?_concat] at hp
    refine hplain p (by rw [List.getLast?_concat]; exact hp) ?_
    rcases hhides with hnumbered | ⟨hkind, q, hq, hlast, hnext⟩
    · exact .inl hnumbered
    refine .inr ⟨hkind, q, hq, hlast, ?_⟩
    cases after with
    | cons u after => exact hnext
    | nil =>
      -- A semicolon is no quote.
      rw [List.nil_append] at hnext
      obtain ⟨u, hu, hbytes⟩ := Option.bind_eq_some_iff.mp hnext
      have hkind : u.kind = .semicolon := by simpa using hb u hu
      have hmem : u ∈ tokens sql := by
        rw [hwhole]
        exact List.mem_append_right _ (List.mem_cons_of_mem _ (List.mem_of_mem_head? hu))
      rw [bytes_of_semicolon (Nat.le_refl _) hmem hkind] at hbytes
      obtain rfl := Option.some.inj hbytes
      cases hq

/-- A statement that begins with a comment. -/
theorem attach_rejected_sample :
    rejects_attach ("select 'x'; /* y */attach'z'as z".toList.map byte) = true := by
  refine @attach_rejected _ _ [⟨.space, " ".toList.map byte⟩, ⟨.comment, "/* y */".toList.map byte⟩]
    [⟨.quoted, "'z'".toList.map byte⟩, ⟨.word, "as".toList.map byte⟩, ⟨.space, " ".toList.map byte⟩,
      ⟨.word, "z".toList.map byte⟩]
    ⟨.word, "attach".toList.map byte⟩ ?_ rfl ?_ (not_hides_of_leading ?_)
  · decide
  · decide
  · decide

/-- The first keyword of a statement is ATTACH, but two texts with the same quotes hide it. -/
theorem hidden_attach_accepted : ∃ stmt ∈ statements ("'x'ATTACH'y'".toList.map byte), ∃ t,
    stmt.find? (fun t => t.kind = .word) = some t ∧ t.isKeyword "attach" = true ∧
      rejects_attach ("'x'ATTACH'y'".toList.map byte) = false := by
  refine ⟨[⟨.quoted, "'x'".toList.map byte⟩, ⟨.word, "ATTACH".toList.map byte⟩,
    ⟨.quoted, "'y'".toList.map byte⟩], ?_, ⟨.word, "ATTACH".toList.map byte⟩, ?_⟩
  · decide
  · decide

end Database
