import Mathlib.Data.List.Infix
import VynkorPlugins.Ai.Sse

/-!
# Chunks and line endings

A stream of events is decoded alike however it is cut into chunks, and what comes of it for each of the
three line endings.
-/

namespace Ai.Sse

/-! ## Streams -/

inductive Eol where
  | lf
  | crlf
  | cr
deriving DecidableEq

def Eol.chars : Eol → List Char
  | .lf => ['\n']
  | .crlf => ['\r', '\n']
  | .cr => ['\r']

/-- A text without line breaks. -/
structure Text where
  chars : List Char
  flat : '\r' ∉ chars ∧ '\n' ∉ chars

/-- A line of a stream. The space before the data may be left out where the data do not begin with one. -/
inductive Line where
  | data (spaced : Bool) (text : Text)
  | comment (text : Text)
  | event (text : Text)
  | id (text : Text)
  | retry (text : Text)

def Line.chars : Line → List Char
  | .data spaced text =>
    "data:".toList ++ ((if spaced ∨ text.chars.head? = some ' ' then [' '] else []) ++ text.chars)
  | .comment text => ':' :: text.chars
  | .event text => "event:".toList ++ text.chars
  | .id text => "id:".toList ++ text.chars
  | .retry text => "retry:".toList ++ text.chars

def Line.data? : Line → Option (List Char)
  | .data _ text => some text.chars
  | _ => none

abbrev Event := List Line

/-- The data of an event. -/
def Event.data (e : Event) : Option String := joined (e.filterMap Line.data?)

def bytes (cs : List Char) : Bytes := cs.flatMap String.utf8EncodeChar

def Eol.bytes (eol : Eol) : Bytes := Sse.bytes eol.chars

/-- The lines of an event and the blank line that ends it. -/
def Event.print (eol : Eol) (e : Event) : Bytes :=
  (e.flatMap fun line => bytes line.chars ++ eol.bytes) ++ eol.bytes

def stream (eol : Eol) (events : List Event) : Bytes := events.flatMap (Event.print eol)

/-! ## Draining -/

variable {a b rest buf : Bytes} {found : Nat × Nat} {c : UInt8} {eol : Eol} {e : Event} {line : Line}

theorem find_flat (hcr : c ≠ CR) (hlf : c ≠ LF) (buf : Bytes) :
    find_event_end (c :: buf) = (find_event_end buf).map fun found => (found.1 + 1, found.2) := by
  rw [find_event_end]
  simp [separators, List.isPrefixOf, Ne.symm hcr, Ne.symm hlf]

/-- At most one separator begins a buffer. -/
theorem separator_iff {sep : Bytes} :
    (separators.find? fun s => s.isPrefixOf buf) = some sep ↔ sep ∈ separators ∧ sep <+: buf := by
  constructor
  · intro h
    have hpre := List.find?_some h
    exact ⟨List.mem_of_find?_eq_some h, List.isPrefixOf_iff_prefix.mp hpre⟩
  · rintro ⟨hmem, hpre⟩
    simp only [separators, List.mem_cons, List.not_mem_nil, or_false] at hmem
    obtain ⟨rest, rfl⟩ := hpre
    rcases hmem with rfl | rfl | rfl <;> simp [separators, List.isPrefixOf, CR, LF]

/-- A part of a separator has no other one in it. -/
theorem find_part {x : UInt8} {sep : Bytes} (hsep : sep ∈ separators) (hpart : x :: a <+: sep)
    (hproper : x :: a ≠ sep) : find_event_end a = none := by
  simp only [separators, List.mem_cons, List.not_mem_nil, or_false] at hsep
  have hinits : x :: a ∈ sep.inits := (List.mem_inits _ _).mpr hpart
  rcases hsep with rfl | rfl | rfl <;>
    simp only [List.inits, List.map_cons, List.map_nil, List.mem_cons, List.not_mem_nil, or_false, List.cons.injEq,
      reduceCtorEq, false_or] at hinits
  · rcases hinits with ⟨-, rfl⟩ | ⟨-, rfl⟩ | ⟨-, rfl⟩ | ⟨rfl, rfl⟩
    · rfl
    · rfl
    · rfl
    · exact (hproper rfl).elim
  · rcases hinits with ⟨-, rfl⟩ | ⟨rfl, rfl⟩
    · rfl
    · exact (hproper rfl).elim
  · rcases hinits with ⟨-, rfl⟩ | ⟨rfl, rfl⟩
    · rfl
    · exact (hproper rfl).elim

/-- What is found is found as well when more bytes follow. -/
theorem find_append (h : find_event_end a = some found) (b : Bytes) : find_event_end (a ++ b) = some found := by
  induction a generalizing found with
  | nil => cases h
  | cons x a ih =>
    rw [List.cons_append, find_event_end]
    rw [find_event_end] at h
    cases hhere : separators.find? fun sep => sep.isPrefixOf (x :: a) with
    | some sep =>
      obtain ⟨hmem, hpre⟩ := separator_iff.mp hhere
      have hlonger : sep <+: x :: (a ++ b) := hpre.trans (List.prefix_append _ b)
      rw [hhere] at h
      rw [separator_iff.mpr ⟨hmem, hlonger⟩]
      exact h
    | none =>
      rw [hhere] at h
      obtain ⟨later, hlater, rfl⟩ := Option.map_eq_some_iff.mp h
      cases hthere : separators.find? fun sep => sep.isPrefixOf (x :: (a ++ b)) with
      | none =>
        dsimp only
        rw [ih hlater]
        rfl
      | some sep =>
        -- the separator goes beyond the first bytes, so nothing is found in these
        obtain ⟨hmem, hpre⟩ := separator_iff.mp hthere
        have hnot : ¬ sep <+: x :: a := by
          intro hfirst
          rw [separator_iff.mpr ⟨hmem, hfirst⟩] at hhere
          cases hhere
        have hpart : x :: a <+: sep :=
          (List.prefix_or_prefix_of_prefix (List.prefix_append (x :: a) b) hpre).resolve_right hnot
        have hproper : x :: a ≠ sep := by
          rintro rfl
          exact hnot (List.prefix_refl _)
        rw [find_part hmem hpart hproper] at hlater
        cases hlater

theorem drain_none (h : find_event_end buf = none) : drain buf = ([], buf) := by
  rw [drain]
  split
  · rfl
  · rename_i hfound
    rw [h] at hfound
    cases hfound

theorem drain_some {stop len : Nat} (h : find_event_end buf = some (stop, len)) :
    drain buf = ((event_data (buf.take stop)).toList ++ (drain (buf.drop (stop + len))).1,
      (drain (buf.drop (stop + len))).2) := by
  conv_lhs => rw [drain]
  split
  · rename_i hnone
    rw [h] at hnone
    cases hnone
  · rename_i hfound
    rw [h] at hfound
    cases hfound
    rfl

theorem drain_rest (buf : Bytes) : find_event_end (drain buf).2 = none := by
  induction hn : buf.length using Nat.strong_induction_on generalizing buf with
  | _ n ih =>
    cases hfind : find_event_end buf with
    | none =>
      rw [drain_none hfind]
      exact hfind
    | some found =>
      obtain ⟨stop, len⟩ := found
      obtain ⟨hle, hpos⟩ := found_le hfind
      rw [drain_some hfind]
      refine ih _ ?_ _ rfl
      rw [List.length_drop]
      dsimp only at hle hpos
      omega

/-- Draining goes on with what stayed in the buffer. -/
theorem drain_append (a b : Bytes) :
    drain (a ++ b) = ((drain a).1 ++ (drain ((drain a).2 ++ b)).1, (drain ((drain a).2 ++ b)).2) := by
  induction hn : a.length using Nat.strong_induction_on generalizing a with
  | _ n ih =>
    cases hfind : find_event_end a with
    | none =>
      rw [drain_none hfind]
      rfl
    | some found =>
      obtain ⟨stop, len⟩ := found
      obtain ⟨hle, hpos⟩ := found_le hfind
      dsimp only at hle hpos
      have hlater := ih (a.drop (stop + len)).length (by rw [List.length_drop]; omega) (a.drop (stop + len)) rfl
      rw [drain_some hfind, drain_some (find_append hfind b), List.take_append_of_le_length (by omega),
        List.drop_append_of_le_length hle, hlater]
      simp only [List.append_assoc]

/-! ## Feeding -/

theorem feed_ok (h : (drain (buf ++ a)).2.length ≤ MAX_PENDING_BYTES) :
    feed buf a = (.ok (drain (buf ++ a)).1, (drain (buf ++ a)).2) := by
  unfold feed
  exact if_neg (Nat.not_lt.mpr h)

theorem feed_error (h : ¬ (drain (buf ++ a)).2.length ≤ MAX_PENDING_BYTES) :
    ∃ err, (feed buf a).1 = .error err := by
  unfold feed
  exact ⟨_, congrArg Prod.fst (if_pos (Nat.not_le.mp h))⟩

/-- Feeding succeeds where the buffer never grows beyond the cap, and gives what is drained of all bytes. -/
theorem feeds_iff (chunks : List Bytes) (hbuf : find_event_end buf = none) (hcap : buf.length ≤ MAX_PENDING_BYTES)
    (r : List String) :
    feeds buf chunks = .ok r ↔
      r = (drain (buf ++ chunks.flatten)).1 ∧
        ∀ seen, seen <+: chunks → (drain (buf ++ seen.flatten)).2.length ≤ MAX_PENDING_BYTES := by
  induction chunks generalizing buf r with
  | nil =>
    have hdrain : drain (buf ++ ([] : List Bytes).flatten) = ([], buf) := by
      rw [List.flatten_nil, List.append_nil, drain_none hbuf]
    simp only [List.prefix_nil, forall_eq, hdrain, hcap, and_true, feeds, Except.ok.injEq]
    exact eq_comm
  | cons chunk chunks ih =>
    have hseen : (∀ seen, seen <+: chunk :: chunks → (drain (buf ++ seen.flatten)).2.length ≤ MAX_PENDING_BYTES) ↔
        (drain (buf ++ chunk)).2.length ≤ MAX_PENDING_BYTES ∧
          ∀ seen, seen <+: chunks → (drain ((drain (buf ++ chunk)).2 ++ seen.flatten)).2.length ≤ MAX_PENDING_BYTES := by
      have hcut : ∀ seen : List Bytes, (drain (buf ++ (chunk :: seen).flatten)).2 =
          (drain ((drain (buf ++ chunk)).2 ++ seen.flatten)).2 := by
        intro seen
        rw [List.flatten_cons, ← List.append_assoc, drain_append]
      constructor
      · intro h
        refine ⟨?_, fun seen hpre => ?_⟩
        · have hone := h [chunk] (List.prefix_append [chunk] chunks)
          rwa [List.flatten_singleton] at hone
        · rw [← hcut]
          exact h _ (List.cons_prefix_cons.mpr ⟨rfl, hpre⟩)
      · rintro ⟨-, h⟩ seen hpre
        cases seen with
        | nil =>
          rw [List.flatten_nil, List.append_nil, drain_none hbuf]
          exact hcap
        | cons first seen =>
          obtain ⟨rfl, hseen⟩ := List.cons_prefix_cons.mp hpre
          rw [hcut]
          exact h seen hseen
    have hall : drain (buf ++ (chunk :: chunks).flatten) =
        ((drain (buf ++ chunk)).1 ++ (drain ((drain (buf ++ chunk)).2 ++ chunks.flatten)).1,
          (drain ((drain (buf ++ chunk)).2 ++ chunks.flatten)).2) := by
      rw [List.flatten_cons, ← List.append_assoc, drain_append]
    rw [hseen, hall]
    by_cases hfits : (drain (buf ++ chunk)).2.length ≤ MAX_PENDING_BYTES
    · have hlater := ih (drain_rest (buf ++ chunk)) hfits
      simp only [feeds, feed_ok hfits]
      show ((feeds (drain (buf ++ chunk)).2 chunks).bind fun later => .ok ((drain (buf ++ chunk)).1 ++ later)) = .ok r ↔ _
      constructor
      · intro h
        obtain ⟨later, hok, heq⟩ := Rust.bind_eq_ok.mp h
        obtain ⟨rfl, hcaps⟩ := (hlater later).mp hok
        exact ⟨(Except.ok.inj heq).symm, hfits, hcaps⟩
      · rintro ⟨rfl, -, hcaps⟩
        rw [(hlater _).mpr ⟨rfl, hcaps⟩]
        rfl
    · obtain ⟨err, herr⟩ := feed_error hfits
      refine iff_of_false ?_ fun h => hfits h.2.1
      intro h
      simp only [feeds, herr] at h
      cases h

/-! ## Events in the buffer -/

/-- The blank line that may stand before an event. -/
def blank (eol : Eol) (p : Bool) : Bytes := if p then eol.bytes else []

/-- The text of an event, without the terminators that end it. -/
def Event.text (eol : Eol) (e : Event) : List Char := eol.chars.intercalate (e.map Line.chars)

theorem bytes_append (cs ds : List Char) : bytes (cs ++ ds) = bytes cs ++ bytes ds :=
  List.flatMap_append

/-- The text is without line breaks. -/
def Flat (cs : List Char) : Prop := '\r' ∉ cs ∧ '\n' ∉ cs

theorem Flat.append {cs ds : List Char} (h : Flat cs) (h' : Flat ds) : Flat (cs ++ ds) := by
  refine ⟨fun hmem => ?_, fun hmem => ?_⟩
  · exact (List.mem_append.mp hmem).elim h.1 h'.1
  · exact (List.mem_append.mp hmem).elim h.2 h'.2

theorem name_spec :
    ∀ name ∈ ["data:", "event:", "id:", "retry:"], Flat name.toList ∧ name.toList ≠ [] := by
  unfold Flat
  decide

theorem line_flat (line : Line) : '\r' ∉ line.chars ∧ '\n' ∉ line.chars := by
  cases line with
  | data spaced text =>
    refine Flat.append (name_spec "data:" (by simp)).1 (Flat.append ?_ text.flat)
    unfold Flat
    split_ifs <;> decide
  | comment text =>
    exact Flat.append (show Flat [':'] by unfold Flat; decide) text.flat
  | event text => exact Flat.append (name_spec "event:" (by simp)).1 text.flat
  | id text => exact Flat.append (name_spec "id:" (by simp)).1 text.flat
  | retry text => exact Flat.append (name_spec "retry:" (by simp)).1 text.flat

theorem line_ne_nil (line : Line) : line.chars ≠ [] := by
  cases line with
  | data spaced text => exact List.append_ne_nil_of_left_ne_nil (name_spec "data:" (by simp)).2 _
  | comment text => exact List.cons_ne_nil _ _
  | event text => exact List.append_ne_nil_of_left_ne_nil (name_spec "event:" (by simp)).2 _
  | id text => exact List.append_ne_nil_of_left_ne_nil (name_spec "id:" (by simp)).2 _
  | retry text => exact List.append_ne_nil_of_left_ne_nil (name_spec "retry:" (by simp)).2 _

theorem bytes_flat {cs : List Char} (hcr : '\r' ∉ cs) (hlf : '\n' ∉ cs) : ∀ b ∈ bytes cs, b ≠ CR ∧ b ≠ LF := by
  intro b hb
  obtain ⟨c, hc, hmem⟩ := List.mem_flatMap.mp hb
  constructor
  · rintro rfl
    have hnat : c.toNat = 13 := (Rust.mem_utf8EncodeChar (by decide)).mp hmem
    have heq : c = '\r' := Char.toNat_inj.mp hnat
    exact hcr (heq ▸ hc)
  · rintro rfl
    have hnat : c.toNat = 10 := (Rust.mem_utf8EncodeChar (by decide)).mp hmem
    have heq : c = '\n' := Char.toNat_inj.mp hnat
    exact hlf (heq ▸ hc)

theorem bytes_ne_nil {cs : List Char} (h : cs ≠ []) : bytes cs ≠ [] := by
  cases cs with
  | nil => exact (h rfl).elim
  | cons c cs =>
    have hlen : (String.utf8EncodeChar c).length = c.utf8Size := String.length_utf8EncodeChar c
    have hpos := c.utf8Size_pos
    intro hnil
    have hchar : String.utf8EncodeChar c = [] := (List.append_eq_nil_iff.mp hnil).1
    rw [hchar, List.length_nil] at hlen
    omega

/-- A line begins with a byte that ends none. -/
theorem line_begins (line : Line) : ∃ b rest, bytes line.chars = b :: rest ∧ b ≠ CR ∧ b ≠ LF := by
  obtain ⟨hcr, hlf⟩ := line_flat line
  cases hbytes : bytes line.chars with
  | nil => exact (bytes_ne_nil (line_ne_nil line) hbytes).elim
  | cons b rest =>
    have hb : b ∈ bytes line.chars := by
      rw [hbytes]
      exact List.mem_cons_self
    exact ⟨b, rest, rfl, bytes_flat hcr hlf b hb⟩

theorem find_skip {l : Bytes} (h : ∀ b ∈ l, b ≠ CR ∧ b ≠ LF) (rest : Bytes) :
    find_event_end (l ++ rest) = (find_event_end rest).map fun found => (found.1 + l.length, found.2) := by
  induction l with
  | nil => simp
  | cons b l ih =>
    obtain ⟨hcr, hlf⟩ := h b List.mem_cons_self
    rw [List.cons_append, find_flat hcr hlf, ih fun b hb => h b (List.mem_cons_of_mem _ hb), Option.map_map]
    rfl

/-- One line terminator ends no event. -/
theorem find_eol (eol : Eol) {b : UInt8} (hcr : b ≠ CR) (hlf : b ≠ LF) (rest : Bytes) :
    find_event_end (eol.bytes ++ b :: rest) =
      (find_event_end (b :: rest)).map fun found => (found.1 + eol.bytes.length, found.2) := by
  have hcr' := Ne.symm hcr
  have hlf' := Ne.symm hlf
  have hdiffer : CR ≠ LF := by decide
  have hnone : ∀ first, (separators.find? fun sep => sep.isPrefixOf (first :: b :: rest)) = none := by
    intro first
    simp [separators, List.isPrefixOf, hcr', hlf']
  have hcrlf : (separators.find? fun sep => sep.isPrefixOf (CR :: LF :: b :: rest)) = none := by
    simp [separators, List.isPrefixOf, hcr', hdiffer, hdiffer.symm]
  cases eol with
  | lf =>
    show find_event_end (LF :: b :: rest) = _
    rw [find_event_end, hnone LF]
    rfl
  | crlf =>
    show find_event_end (CR :: LF :: b :: rest) = _
    rw [find_event_end, hcrlf, find_event_end, hnone LF]
    show Option.map _ (Option.map _ _) = _
    rw [Option.map_map]
    rfl
  | cr =>
    show find_event_end (CR :: b :: rest) = _
    rw [find_event_end, hnone CR]
    rfl

/-- Two line terminators end an event. -/
theorem find_end (eol : Eol) (rest : Bytes) :
    find_event_end (eol.bytes ++ (eol.bytes ++ rest)) = some (0, 2 * eol.bytes.length) := by
  cases eol <;> rfl

theorem print_cons (eol : Eol) (line : Line) (e : Event) :
    Event.print eol (line :: e) = bytes line.chars ++ (eol.bytes ++ e.print eol) := by
  simp only [Event.print, List.flatMap_cons, List.append_assoc]

theorem print_nil (eol : Eol) : Event.print eol [] = eol.bytes := rfl

theorem print_begins (eol : Eol) (line : Line) (e : Event) :
    ∃ b rest, Event.print eol (line :: e) = b :: rest ∧ b ≠ CR ∧ b ≠ LF := by
  obtain ⟨b, rest, hbytes, hb⟩ := line_begins line
  exact ⟨b, rest ++ (eol.bytes ++ Event.print eol e), by rw [print_cons, hbytes, List.cons_append], hb⟩

theorem text_cons (eol : Eol) (line next : Line) (e : Event) :
    Event.text eol (line :: next :: e) = line.chars ++ (eol.chars ++ Event.text eol (next :: e)) := by
  simp [Event.text, List.intercalate]

/-- An event with lines is its text and the two terminators. -/
theorem print_eq (eol : Eol) (line : Line) (e : Event) :
    Event.print eol (line :: e) = bytes (Event.text eol (line :: e)) ++ (eol.bytes ++ eol.bytes) := by
  induction e generalizing line with
  | nil =>
    rw [print_cons, print_nil]
    simp [Event.text]
  | cons next e ih =>
    rw [print_cons, ih next, text_cons, bytes_append, bytes_append, List.append_assoc, List.append_assoc]
    rfl

/-- The end of an event is found behind its text. -/
theorem find_print (eol : Eol) (line : Line) (e : Event) (rest : Bytes) :
    find_event_end (Event.print eol (line :: e) ++ rest) =
      some ((bytes (Event.text eol (line :: e))).length, 2 * eol.bytes.length) := by
  induction e generalizing line with
  | nil =>
    obtain ⟨hcr, hlf⟩ := line_flat line
    rw [print_cons, print_nil, List.append_assoc, List.append_assoc, find_skip (bytes_flat hcr hlf), find_end]
    simp [Event.text]
  | cons next e ih =>
    obtain ⟨hcr, hlf⟩ := line_flat line
    obtain ⟨b, tail, hbegins, hb⟩ := print_begins eol next e
    have hlater := ih next
    rw [hbegins, List.cons_append] at hlater
    rw [print_cons, hbegins, List.append_assoc, List.append_assoc, List.cons_append,
      find_skip (bytes_flat hcr hlf), find_eol eol hb.1 hb.2, hlater, text_cons, bytes_append, bytes_append]
    simp only [Option.map_some, List.length_append]
    congr 2
    show _ + (Eol.bytes eol).length + _ = _ + ((Eol.bytes eol).length + _)
    omega

/-- What is surfaced of an event with lines. -/
def seen (eol : Eol) (p : Bool) (e : Event) : Option String :=
  event_data (blank eol p ++ bytes (e.text eol))

theorem find_blank (eol : Eol) (p : Bool) (line : Line) (e : Event) (rest : Bytes) :
    find_event_end (blank eol p ++ (Event.print eol (line :: e) ++ rest)) =
      some ((blank eol p ++ bytes (Event.text eol (line :: e))).length, 2 * eol.bytes.length) := by
  cases p with
  | false => exact find_print eol line e rest
  | true =>
    obtain ⟨b, tail, hbegins, hb⟩ := print_begins eol line e
    have hprint := find_print eol line e rest
    rw [hbegins, List.cons_append] at hprint ⊢
    show find_event_end (eol.bytes ++ _) = _
    rw [find_eol eol hb.1 hb.2, hprint]
    simp only [Option.map_some, blank, if_true, List.length_append]
    rw [Nat.add_comm]

theorem drain_print (eol : Eol) (p : Bool) (line : Line) (e : Event) (rest : Bytes) :
    drain (blank eol p ++ (Event.print eol (line :: e) ++ rest)) =
      ((seen eol p (line :: e)).toList ++ (drain rest).1, (drain rest).2) := by
  have hsplit : blank eol p ++ (Event.print eol (line :: e) ++ rest) =
      (blank eol p ++ bytes (Event.text eol (line :: e))) ++ ((eol.bytes ++ eol.bytes) ++ rest) := by
    rw [print_eq]
    simp only [List.append_assoc]
  have hlen : (eol.bytes ++ eol.bytes).length = 2 * eol.bytes.length := by
    rw [List.length_append]
    omega
  have hfind := find_blank eol p line e rest
  rw [drain_some hfind]
  rw [hsplit, List.take_left, ← List.drop_drop, List.drop_left, ← hlen, List.drop_left]
  rfl

theorem drain_blanks (eol : Eol) (rest : Bytes) : drain (eol.bytes ++ (eol.bytes ++ rest)) = drain rest := by
  rw [drain_some (find_end eol rest), List.take_zero, Nat.zero_add, ← List.append_assoc]
  have hlen : (eol.bytes ++ eol.bytes).length = 2 * eol.bytes.length := by
    rw [List.length_append]
    omega
  have hempty : event_data [] = none := by
    unfold event_data
    rw [Rust.lossy_nil]
    rfl
  rw [hempty, ← hlen, List.drop_left]
  rfl

/-! ## Streams in the buffer -/

/-- A blank line is left in the buffer after an odd number of events without lines. -/
def pending (p : Bool) (events : List Event) : Bool :=
  events.foldl (fun p e => if e = [] then !p else false) p

/-- What is surfaced of a stream, with a blank line before it or without. -/
def drained (eol : Eol) : Bool → List Event → List String
  | _, [] => []
  | p, [] :: events => drained eol (!p) events
  | p, (line :: e) :: events => (seen eol p (line :: e)).toList ++ drained eol false events

theorem drain_stream (eol : Eol) (p : Bool) (events : List Event) (q : Bytes) :
    drain (blank eol p ++ (stream eol events ++ q)) =
      (drained eol p events ++ (drain (blank eol (pending p events) ++ q)).1,
        (drain (blank eol (pending p events) ++ q)).2) := by
  induction events generalizing p with
  | nil => rfl
  | cons e events ih =>
    have hstream : stream eol (e :: events) ++ q = e.print eol ++ (stream eol events ++ q) := by
      rw [stream, List.flatMap_cons, List.append_assoc]
      rfl
    rw [hstream]
    cases e with
    | nil =>
      cases p with
      | false => exact ih true
      | true =>
        show drain (eol.bytes ++ (eol.bytes ++ (stream eol events ++ q))) = _
        rw [drain_blanks]
        exact ih false
    | cons line e =>
      have hlater : drain (stream eol events ++ q) = _ := ih false
      rw [drain_print, hlater]
      simp only [drained, List.append_assoc]
      rfl

/-- What is found in an event is its end. -/
theorem found_print {p : Bool} (h : find_event_end (blank eol p ++ e.print eol) = some found) :
    found.1 + found.2 = (blank eol p ++ e.print eol).length := by
  cases e with
  | nil =>
    rw [print_nil] at h ⊢
    cases p with
    | false =>
      have hnone : find_event_end (blank eol false ++ eol.bytes) = none := by cases eol <;> rfl
      rw [hnone] at h
      cases h
    | true =>
      have hend := find_end eol []
      rw [List.append_nil] at hend
      obtain rfl : (0, 2 * eol.bytes.length) = found := Option.some.inj (hend.symm.trans h)
      show 0 + 2 * eol.bytes.length = (eol.bytes ++ eol.bytes).length
      rw [List.length_append]
      omega
  | cons line e =>
    have hprint := find_blank eol p line e []
    rw [List.append_nil] at hprint
    obtain rfl := Option.some.inj (hprint.symm.trans h)
    rw [print_eq]
    simp only [List.length_append]
    omega

/-- Within an event nothing is found. -/
theorem drain_part {part : Bytes} {p : Bool} (hpart : part <+: e.print eol)
    (hproper : part.length < (e.print eol).length) :
    drain (blank eol p ++ part) = ([], blank eol p ++ part) := by
  refine drain_none ?_
  cases hfind : find_event_end (blank eol p ++ part) with
  | none => rfl
  | some found =>
    obtain ⟨others, hothers⟩ := hpart
    have hmore := find_append hfind others
    rw [List.append_assoc, hothers] at hmore
    have hwhole := found_print hmore
    have hle := (found_le hfind).1
    rw [List.length_append] at hwhole hle
    omega

/-- The first bytes of a stream are some events and a part of the next one. -/
theorem stream_part {q : Bytes} {events : List Event} (h : q <+: stream eol events) :
    q = stream eol events ∨
      ∃ before e after part, events = before ++ e :: after ∧ q = stream eol before ++ part ∧
        part <+: Event.print eol e ∧ part.length < (Event.print eol e).length := by
  induction events generalizing q with
  | nil => exact .inl (List.prefix_nil.mp h)
  | cons e events ih =>
    have hstream : ∀ events, stream eol (e :: events) = e.print eol ++ stream eol events := fun _ => rfl
    rw [hstream] at h ⊢
    by_cases hlen : q.length < (e.print eol).length
    · refine .inr ⟨[], e, events, q, rfl, rfl, ?_, hlen⟩
      exact List.prefix_of_prefix_length_le h (List.prefix_append _ _) (Nat.le_of_lt hlen)
    · obtain ⟨later, rfl⟩ : e.print eol <+: q :=
        List.prefix_of_prefix_length_le (List.prefix_append _ _) h (Nat.not_lt.mp hlen)
      rcases ih ((List.prefix_append_right_inj _).mp h) with rfl | ⟨before, e', after, part, rfl, rfl, hpart, hproper⟩
      · exact .inl rfl
      · refine .inr ⟨e :: before, e', after, part, rfl, ?_, hpart, hproper⟩
        rw [hstream, List.append_assoc]

theorem pending_nil (eol : Eol) (p : Bool) : drain (blank eol p) = ([], blank eol p) := by
  refine drain_none ?_
  cases eol <;> cases p <;> rfl

theorem drain_whole (eol : Eol) (events : List Event) :
    drain (stream eol events) = (drained eol false events, blank eol (pending false events)) := by
  have h : drain (stream eol events ++ []) = _ := drain_stream eol false events []
  rw [List.append_nil, List.append_nil, pending_nil, List.append_nil] at h
  exact h

theorem stream_append (eol : Eol) (events later : List Event) :
    stream eol (events ++ later) = stream eol events ++ stream eol later :=
  List.flatMap_append

/-- The part of a stream that ends in an event tells the event. -/
theorem stream_split (eol : Eol) {before before' after after' : List Event} {e e' : Event} {q : Bytes}
    (hsplit : before ++ e :: after = before' ++ e' :: after')
    (hafter : (stream eol before).length ≤ q.length) (hin : q.length < (stream eol (before ++ [e])).length)
    (hafter' : (stream eol before').length ≤ q.length) (hin' : q.length < (stream eol (before' ++ [e'])).length) :
    before = before' ∧ e = e' := by
  have hlonger : ∀ (b m : List Event) (x : Event),
      (stream eol (b ++ [x])).length ≤ (stream eol (b ++ x :: m)).length := by
    intro b m x
    have hcons : b ++ x :: m = (b ++ [x]) ++ m := by simp
    rw [hcons, stream_append _ (b ++ [x]), List.length_append]
    omega
  rcases List.append_eq_append_iff.mp hsplit with ⟨m, hbefore, hrest⟩ | ⟨m, hbefore, hrest⟩
  · cases m with
    | nil =>
      rw [List.append_nil] at hbefore
      exact ⟨hbefore.symm, (List.cons.inj hrest).1⟩
    | cons x m =>
      obtain ⟨rfl, -⟩ := List.cons.inj hrest
      have hle := hlonger before m e
      rw [hbefore] at hafter'
      omega
  · cases m with
    | nil =>
      rw [List.append_nil] at hbefore
      exact ⟨hbefore, (List.cons.inj hrest).1.symm⟩
    | cons x m =>
      obtain ⟨rfl, -⟩ := List.cons.inj hrest
      have hle := hlonger before' m e'
      rw [hbefore] at hafter
      omega

theorem blank_length (eol : Eol) (p : Bool) :
    (blank eol p).length ≤ 2 ∧ (2 ≤ (blank eol p).length ↔ eol = .crlf ∧ p = true) := by
  cases eol <;> cases p <;> decide

theorem print_pos (eol : Eol) (e : Event) : 0 < (e.print eol).length := by
  have heol : 0 < eol.bytes.length := by cases eol <;> decide
  rw [Event.print, List.length_append]
  omega

/-- The buffer holds more than an event of at most the cap only before the last byte of an event of just this
    size, where a blank line of two bytes stands before it. -/
theorem rest_iff {q : Bytes} {events : List Event}
    (hsize : ∀ e ∈ events, (Event.print eol e).length ≤ MAX_PENDING_BYTES) (h : q <+: stream eol events) :
    (drain q).2.length ≤ MAX_PENDING_BYTES ↔
      ¬ ∃ before e after, events = before ++ e :: after ∧ eol = .crlf ∧ pending false before = true ∧
        (Event.print eol e).length = MAX_PENDING_BYTES ∧
          q.length + 1 = (stream eol (before ++ [e])).length := by
  have hone : ∀ (before : List Event) (e : Event),
      (stream eol (before ++ [e])).length = (stream eol before).length + (Event.print eol e).length := by
    intro before e
    rw [stream_append, List.length_append]
    simp [stream]
  rcases stream_part h with rfl | ⟨before, e, after, part, rfl, rfl, hpart, hproper⟩
  · refine iff_of_true ?_ ?_
    · rw [drain_whole]
      have hcap : 2 ≤ MAX_PENDING_BYTES := by decide
      exact (blank_length eol _).1.trans hcap
    · rintro ⟨before, e, after, rfl, -, -, -, hlen⟩
      have hcons : before ++ e :: after = (before ++ [e]) ++ after := by simp
      rw [hcons, stream_append _ (before ++ [e]), List.length_append] at hlen
      omega
  · have hdrain : drain (stream eol before ++ part) = _ := drain_stream eol false before part
    rw [drain_part hpart hproper] at hdrain
    have hrest : (drain (stream eol before ++ part)).2.length =
        (blank eol (pending false before)).length + part.length := by
      rw [hdrain, List.length_append]
    have hcap := hsize e (by simp)
    obtain ⟨htwo, hcrlf⟩ := blank_length eol (pending false before)
    rw [hrest]
    constructor
    · rintro hle ⟨before', e', after', hsplit, heol, hpending, hmax, hlen⟩
      rw [hone] at hlen
      have hpos := print_pos eol e'
      rw [List.length_append] at hlen
      obtain ⟨rfl, rfl⟩ := stream_split eol (q := stream eol before ++ part) hsplit
        (by rw [List.length_append]; omega) (by rw [List.length_append, hone]; omega)
        (by rw [List.length_append]; omega) (by rw [List.length_append, hone]; omega)
      have hboth := hcrlf.mpr ⟨heol, hpending⟩
      omega
    · intro hnone
      by_contra hover
      have hboth := hcrlf.mp (by omega)
      refine hnone ⟨before, e, after, rfl, hboth.1, hboth.2, by omega, ?_⟩
      rw [hone, List.length_append]
      omega

/-! ## Lines -/

theorem lines_cons {l : List Char} (h : '\n' ∉ l) (rest : List Char) :
    Rust.lines (l ++ '\n' :: rest) =
      (if l.getLast? = some '\r' then l.dropLast else l) :: Rust.lines rest := by
  have hl : ∀ ch ∈ l, decide (ch = '\n') = false := by
    intro ch hch
    rw [decide_eq_false_iff_not]
    rintro rfl
    exact h hch
  have hne := List.splitOnP_ne_nil (fun ch => decide (ch = '\n')) rest
  unfold Rust.lines
  rw [List.splitOnP_append_cons_of_forall_mem hl '\n' (by simp)]
  cases hpieces : rest.splitOnP fun ch => decide (ch = '\n') with
  | nil => exact (hne hpieces).elim
  | cons first pieces =>
    dsimp only
    rw [List.dropLast_cons_cons, List.map_cons, List.getLast?_cons_cons]
    split
    · rfl
    · rfl
    · rfl

theorem lines_one {l : List Char} (h : '\n' ∉ l) (hne : l ≠ []) : Rust.lines l = [l] := by
  have hl : ∀ ch ∈ l, decide (ch = '\n') = false := by
    intro ch hch
    rw [decide_eq_false_iff_not]
    rintro rfl
    exact h hch
  unfold Rust.lines
  rw [List.splitOnP_eq_singleton hl]
  cases l with
  | nil => exact (hne rfl).elim
  | cons c l => rfl

/-- Lines that are ended by newlines are read again. -/
theorem lines_text {eol : Eol} (heol : eol ≠ .cr) {ls : List (List Char)}
    (hflat : ∀ l ∈ ls, '\r' ∉ l ∧ '\n' ∉ l) (hlast : ∀ l, ls.getLast? = some l → l ≠ []) (hne : ls ≠ []) :
    Rust.lines (eol.chars.intercalate ls) = ls := by
  induction ls with
  | nil => exact (hne rfl).elim
  | cons l ls ih =>
    obtain ⟨hcr, hlf⟩ := hflat l List.mem_cons_self
    cases ls with
    | nil =>
      rw [List.intercalate_singleton]
      exact lines_one hlf (hlast l rfl)
    | cons next ls =>
      have hlater := ih (fun l hl => hflat l (List.mem_cons_of_mem _ hl))
        (fun l hl => hlast l (by rwa [List.getLast?_cons_cons])) (List.cons_ne_nil _ _)
      have hnext : eol.chars.intercalate (l :: next :: ls) =
          l ++ (eol.chars ++ eol.chars.intercalate (next :: ls)) := by
        simp [List.intercalate]
      rw [hnext]
      cases eol with
      | cr => exact (heol rfl).elim
      | lf =>
        have hstrip : ¬ l.getLast? = some '\r' := fun h => hcr (List.mem_of_getLast? h)
        show Rust.lines (l ++ '\n' :: Eol.lf.chars.intercalate (next :: ls)) = _
        rw [lines_cons hlf, hlater, if_neg hstrip]
      | crlf =>
        have hflat' : '\n' ∉ l ++ ['\r'] := by simp [hlf]
        have hcut : l ++ (Eol.crlf.chars ++ Eol.crlf.chars.intercalate (next :: ls)) =
            (l ++ ['\r']) ++ '\n' :: Eol.crlf.chars.intercalate (next :: ls) := by
          rw [List.append_assoc]
          rfl
        rw [hcut, lines_cons hflat', hlater, List.getLast?_concat, if_pos rfl, List.dropLast_concat]

theorem space_none {y : List Char} (h : y.head? ≠ some ' ') : [' '].isPrefixOf? y = none := by
  cases y with
  | nil => rfl
  | cons c y =>
    have hc : ' ' ≠ c := fun heq => h (congrArg some heq.symm)
    simp [List.isPrefixOf?, hc]

/-- A line is read as what it says, also with more behind it. -/
theorem data_line_append (line : Line) {x : List Char} (hx : x.head? ≠ some ' ') :
    data_line (line.chars ++ x) = line.data?.map (· ++ x) := by
  cases line with
  | data spaced text =>
    show some (([' '].isPrefixOf? (((if _ then [' '] else []) ++ text.chars) ++ x)).getD _) = some (text.chars ++ x)
    split_ifs with hspace
    · simp [List.isPrefixOf?]
    · have hhead : (text.chars ++ x).head? ≠ some ' ' := by
        have htext := (not_or.mp hspace).2
        cases hchars : text.chars with
        | nil => exact hx
        | cons c cs =>
          rw [hchars] at htext
          exact htext
      rw [List.nil_append, space_none hhead]
      rfl
  | comment text => rfl
  | event text => rfl
  | id text => rfl
  | retry text => rfl

theorem data_line_chars (line : Line) : data_line line.chars = line.data? := by
  have h := data_line_append line (x := []) nofun
  rw [List.append_nil] at h
  rw [h]
  cases line.data? with
  | none => rfl
  | some text => exact congrArg some (List.append_nil text)

theorem data_lines (e : Event) : (e.map Line.chars).filterMap data_line = e.filterMap Line.data? := by
  rw [List.filterMap_map]
  exact List.filterMap_congr fun line _ => data_line_chars line

/-! ## What is surfaced of an event -/

theorem seen_eq (eol : Eol) (p : Bool) (e : Event) :
    seen eol p e = joined ((Rust.lines ((if p then eol.chars else []) ++ e.text eol)).filterMap data_line) := by
  have hbytes : blank eol p ++ bytes (e.text eol) = bytes ((if p then eol.chars else []) ++ e.text eol) := by
    rw [bytes_append]
    cases p <;> rfl
  rw [seen, hbytes, event_data, bytes, Rust.lossy_text]

/-- With newlines all lines are found. -/
theorem seen_lines {eol : Eol} (heol : eol ≠ .cr) (p : Bool) (line : Line) (e : Event) :
    seen eol p (line :: e) = Event.data (line :: e) := by
  have hflat : ∀ l ∈ (line :: e).map Line.chars, '\r' ∉ l ∧ '\n' ∉ l := by
    intro l hl
    obtain ⟨line', -, rfl⟩ := List.mem_map.mp hl
    exact line_flat line'
  have hlast : ∀ l, ((line :: e).map Line.chars).getLast? = some l → l ≠ [] := by
    intro l hl
    obtain ⟨line', -, rfl⟩ := List.mem_map.mp (List.mem_of_getLast? hl)
    exact line_ne_nil line'
  rw [seen_eq]
  cases p with
  | false =>
    show joined ((Rust.lines (eol.chars.intercalate ((line :: e).map Line.chars))).filterMap data_line) = _
    rw [lines_text heol hflat hlast (by simp), data_lines]
    rfl
  | true =>
    have hblank : eol.chars ++ Event.text eol (line :: e) =
        eol.chars.intercalate ([] :: (line :: e).map Line.chars) := by
      simp [Event.text, List.intercalate]
    have hflat' : ∀ l ∈ [] :: (line :: e).map Line.chars, '\r' ∉ l ∧ '\n' ∉ l := by
      intro l hl
      rcases List.mem_cons.mp hl with rfl | hl
      · simp
      · exact hflat l hl
    have hlast' : ∀ l, ([] :: (line :: e).map Line.chars).getLast? = some l → l ≠ [] := by
      intro l hl
      rw [List.map_cons, List.getLast?_cons_cons] at hl
      exact hlast l hl
    rw [if_pos rfl, hblank, lines_text heol hflat' hlast' (by simp)]
    show joined (((line :: e).map Line.chars).filterMap data_line) = _
    rw [data_lines]
    rfl

/-- What follows the first line of an event. -/
def more (e : Event) : List Char := if e = [] then [] else '\r' :: e.text .cr

theorem text_more (line : Line) (e : Event) : Event.text .cr (line :: e) = line.chars ++ more e := by
  cases e with
  | nil => simp [Event.text, more]
  | cons next e =>
    rw [text_cons]
    rfl

theorem text_flat (e : Event) : '\n' ∉ e.text .cr := by
  induction e with
  | nil => simp [Event.text]
  | cons line e ih =>
    have hline := (line_flat line).2
    rw [text_more]
    unfold more
    split_ifs <;> simp [hline, ih]

theorem joined_one (text : Option (List Char)) : joined text.toList = text.map String.ofList := by
  cases text with
  | none => rfl
  | some text =>
    show some (String.ofList (['\n'].intercalate [text])) = _
    rw [List.intercalate_singleton]
    rfl

/-- With carriage returns there is one line. -/
theorem seen_cr (p : Bool) (line : Line) (e : Event) :
    seen .cr p (line :: e) =
      if p then none else line.data?.map fun text => String.ofList (text ++ more e) := by
  have hflat := text_flat (line :: e)
  rw [seen_eq]
  cases p with
  | true =>
    have hone : Rust.lines ('\r' :: Event.text .cr (line :: e)) = ['\r' :: Event.text .cr (line :: e)] := by
      refine lines_one ?_ (List.cons_ne_nil _ _)
      simp [hflat]
    show joined ((Rust.lines ('\r' :: Event.text .cr (line :: e))).filterMap data_line) = none
    rw [hone]
    rfl
  | false =>
    have hone : Rust.lines (Event.text .cr (line :: e)) = [Event.text .cr (line :: e)] := by
      refine lines_one hflat ?_
      rw [text_more]
      exact List.append_ne_nil_of_left_ne_nil (line_ne_nil line) _
    have hmore : (more e).head? ≠ some ' ' := by
      unfold more
      split_ifs <;> simp
    have hsingle : ∀ l, [l].filterMap data_line = (data_line l).toList := by
      intro l
      cases hl : data_line l <;> simp [hl]
    show joined ((Rust.lines (Event.text .cr (line :: e))).filterMap data_line) = _
    rw [hone, text_more, hsingle, data_line_append line hmore, joined_one, Option.map_map]
    rfl

theorem mem_intercalate {c : Char} {sep : List Char} {ls : List (List Char)} (h : c ∈ sep.intercalate ls) :
    c ∈ sep ∨ ∃ l ∈ ls, c ∈ l := by
  induction ls with
  | nil => simp at h
  | cons l ls ih =>
    cases ls with
    | nil =>
      rw [List.intercalate_singleton] at h
      exact .inr ⟨l, List.mem_cons_self, h⟩
    | cons next ls =>
      have hnext : sep.intercalate (l :: next :: ls) = l ++ (sep ++ sep.intercalate (next :: ls)) := by
        simp [List.intercalate]
      rw [hnext, List.mem_append, List.mem_append] at h
      rcases h with h | h | h
      · exact .inr ⟨l, List.mem_cons_self, h⟩
      · exact .inl h
      · exact (ih h).imp_right fun ⟨l', hl', hc⟩ => ⟨l', List.mem_cons_of_mem _ hl', hc⟩

/-- There is no carriage return in what should be surfaced. -/
theorem not_mem_data {e : Event} {s : String} (h : e.data = some s) : '\r' ∉ s.toList := by
  unfold Event.data joined at h
  split_ifs at h
  obtain rfl := Option.some.inj h
  rw [String.toList_ofList]
  intro hcr
  rcases mem_intercalate hcr with hcr | ⟨l, hl, hcr⟩
  · simp at hcr
  · obtain ⟨line, -, hline⟩ := List.mem_filterMap.mp hl
    cases line with
    | data spaced text =>
      obtain rfl := Option.some.inj hline
      exact text.flat.1 hcr
    | comment text => cases hline
    | event text => cases hline
    | id text => cases hline
    | retry text => cases hline

/-- Where an event has data, they are surfaced exactly where they are its only line and no blank line stands
    before it. -/
theorem seen_cr_iff {p : Bool} {line : Line} {e : Event} {s : String} (h : Event.data (line :: e) = some s) :
    seen .cr p (line :: e) = some s ↔ p = false ∧ e = [] := by
  rw [seen_cr]
  cases p with
  | true => simp
  | false =>
    rw [if_neg Bool.false_ne_true]
    constructor
    · intro hseen
      obtain ⟨text, -, htext⟩ := Option.map_eq_some_iff.mp hseen
      refine ⟨rfl, ?_⟩
      by_contra hne
      apply not_mem_data h
      rw [← htext, String.toList_ofList, more, if_neg hne]
      simp
    · rintro ⟨-, rfl⟩
      unfold Event.data at h
      rw [← h]
      cases hdata : line.data? with
      | none =>
        rw [List.filterMap_cons_none hdata]
        rfl
      | some text =>
        rw [List.filterMap_cons_some hdata]
        show some _ = _
        simp [more, joined]

/-- Without data nothing is surfaced. -/
theorem seen_cr_none {p : Bool} {line : Line} {e : Event} (h : Event.data (line :: e) = none) :
    seen .cr p (line :: e) = none := by
  rw [seen_cr]
  cases p with
  | true => rfl
  | false =>
    cases hdata : line.data? with
    | none => rfl
    | some text =>
      unfold Event.data joined at h
      rw [List.filterMap_cons_some hdata, if_neg (List.cons_ne_nil _ _)] at h
      cases h

/-! ## All events -/

theorem drained_lines (eol : Eol) (heol : eol ≠ .cr) (p : Bool) (events : List Event) :
    drained eol p events = events.filterMap Event.data := by
  induction events generalizing p with
  | nil => rfl
  | cons e events ih =>
    cases e with
    | nil => exact ih (!p)
    | cons line e =>
      rw [drained, seen_lines heol, ih false]
      cases hdata : Event.data (line :: e) with
      | none =>
        rw [List.filterMap_cons_none hdata]
        rfl
      | some s =>
        rw [List.filterMap_cons_some hdata]
        rfl

theorem drained_le (p : Bool) (events : List Event) :
    (drained .cr p events).length ≤ (events.filterMap Event.data).length := by
  induction events generalizing p with
  | nil => exact Nat.le_refl _
  | cons e events ih =>
    cases e with
    | nil => exact ih (!p)
    | cons line e =>
      have hle := ih false
      rw [drained]
      cases hdata : Event.data (line :: e) with
      | none =>
        rw [List.filterMap_cons_none hdata, seen_cr_none hdata]
        exact hle
      | some s =>
        have hone : ∀ o : Option String, o.toList.length ≤ 1 := by
          intro o
          cases o <;> simp
        have hseen := hone (seen .cr p (line :: e))
        rw [List.filterMap_cons_some hdata, List.length_append, List.length_cons]
        omega

/-- Each event with data is one line, and an even number of events without lines stand before it. -/
def Single (p : Bool) (events : List Event) : Prop :=
  ∀ before e after, events = before ++ e :: after → e.data ≠ none → pending p before = false ∧ e.length = 1

theorem single_cons (p : Bool) (e : Event) (events : List Event) :
    Single p (e :: events) ↔
      (e.data ≠ none → p = false ∧ e.length = 1) ∧ Single (if e = [] then !p else false) events := by
  constructor
  · intro h
    refine ⟨h [] e events rfl, fun before e' after heq => ?_⟩
    exact h (e :: before) e' after (by rw [heq]; rfl)
  · rintro ⟨hfirst, hlater⟩ before e' after heq
    cases before with
    | nil =>
      obtain ⟨rfl, -⟩ := List.cons.inj heq
      exact hfirst
    | cons x before =>
      obtain ⟨rfl, hrest⟩ := List.cons.inj heq
      exact hlater before e' after hrest

theorem drained_cr_iff (p : Bool) (events : List Event) :
    drained .cr p events = events.filterMap Event.data ↔ Single p events := by
  induction events generalizing p with
  | nil => exact iff_of_true rfl fun before e after heq => by simp at heq
  | cons e events ih =>
    rw [single_cons]
    cases e with
    | nil =>
      show drained .cr (!p) events = events.filterMap Event.data ↔ _ ∧ Single (!p) events
      rw [← ih]
      exact (and_iff_right fun h => (h rfl).elim).symm
    | cons line e =>
      rw [if_neg (List.cons_ne_nil _ _), ← ih, drained]
      cases hdata : Event.data (line :: e) with
      | none =>
        rw [List.filterMap_cons_none hdata, seen_cr_none hdata]
        exact (and_iff_right fun h => (h rfl).elim).symm
      | some s =>
        have hseen := seen_cr_iff (p := p) hdata
        have hgood : (some s ≠ none → p = false ∧ (line :: e).length = 1) ↔ seen .cr p (line :: e) = some s := by
          rw [hseen]
          simp
        rw [List.filterMap_cons_some hdata, hgood]
        cases hout : seen .cr p (line :: e) with
        | none =>
          -- an event is missing, and there are not too many others
          refine iff_of_false ?_ fun h => by cases h.1
          intro heq
          have hle := drained_le false events
          have hlen := congrArg List.length heq
          simp only [Option.toList_none, List.nil_append, List.length_cons] at hlen
          omega
        | some out =>
          show out :: drained .cr false events = _ ↔ _
          rw [List.cons.injEq, Option.some.injEq]

/-- What is decoded alike: streams with LF; with CRLF where no chunk ends just before the last byte of an
    event of 1 MiB that an odd number of events without lines stand before; and with CR those whose events with
    data are single lines. -/
def Handled (events : List Event) (chunks : List Bytes) : Eol → Prop
  | .lf => True
  | .crlf => ¬ ∃ before e after, events = before ++ e :: after ∧ pending false before = true ∧
      (Event.print .crlf e).length = MAX_PENDING_BYTES ∧
        ∃ first, first <+: chunks ∧ first.flatten.length + 1 = (stream .crlf (before ++ [e])).length
  | .cr => Single false events

/-- However a stream is cut into chunks, feeding them gives the data of its events exactly where it is one of
    those. -/
theorem feeds_stream_iff (eol : Eol) (events : List Event) (chunks : List Bytes)
    (hchunks : chunks.flatten = stream eol events)
    (hsize : ∀ e ∈ events, (Event.print eol e).length ≤ MAX_PENDING_BYTES) :
    feeds [] chunks = .ok (events.filterMap Event.data) ↔ Handled events chunks eol := by
  have hrest : ∀ first, first <+: chunks → ((drain first.flatten).2.length ≤ MAX_PENDING_BYTES ↔
      ¬ ∃ before e after, events = before ++ e :: after ∧ eol = .crlf ∧ pending false before = true ∧
        (Event.print eol e).length = MAX_PENDING_BYTES ∧
          first.flatten.length + 1 = (stream eol (before ++ [e])).length) := by
    rintro first ⟨others, rfl⟩
    refine rest_iff hsize ?_
    rw [← hchunks, List.flatten_append]
    exact List.prefix_append _ _
  rw [feeds_iff chunks rfl (Nat.zero_le _)]
  simp only [List.nil_append, hchunks, drain_whole]
  cases eol with
  | lf =>
    refine iff_of_true ⟨(drained_lines .lf nofun false events).symm, fun first hfirst => ?_⟩ trivial
    rw [hrest first hfirst]
    rintro ⟨before, e, after, -, heol, -⟩
    cases heol
  | crlf =>
    rw [and_iff_right (drained_lines .crlf nofun false events).symm]
    constructor
    · rintro hcaps ⟨before, e, after, hsplit, hpending, hmax, first, hfirst, hlen⟩
      exact (hrest first hfirst).mp (hcaps first hfirst) ⟨before, e, after, hsplit, rfl, hpending, hmax, hlen⟩
    · intro hhandled first hfirst
      rw [hrest first hfirst]
      rintro ⟨before, e, after, hsplit, -, hpending, hmax, hlen⟩
      exact hhandled ⟨before, e, after, hsplit, hpending, hmax, first, hfirst, hlen⟩
  | cr =>
    have hcaps : ∀ first, first <+: chunks → (drain first.flatten).2.length ≤ MAX_PENDING_BYTES := by
      intro first hfirst
      rw [hrest first hfirst]
      rintro ⟨before, e, after, -, heol, -⟩
      cases heol
    rw [and_iff_left hcaps, eq_comm]
    exact drained_cr_iff false events

/-- `data: a` and `data: b` in one event. -/
def twoLines : Event :=
  [.data true ⟨['a'], by simp⟩, .data true ⟨['b'], by simp⟩]

theorem feeds_stream_iff_twoLines :
    feeds [] [stream .lf [twoLines]] = .ok ([twoLines].filterMap Event.data) ↔
      Handled [twoLines] [stream .lf [twoLines]] .lf :=
  feeds_stream_iff .lf [twoLines] [stream .lf [twoLines]] (List.flatten_singleton) (by
    intro e he
    rw [List.mem_singleton.mp he]
    decide)

theorem not_feeds_stream :
    ¬ ∀ (eol : Eol) (events : List Event) (chunks : List Bytes), chunks.flatten = stream eol events →
      (∀ e ∈ events, (Event.print eol e).length ≤ MAX_PENDING_BYTES) →
      feeds [] chunks = .ok (events.filterMap Event.data) := by
  intro h
  have hcr := h .cr [twoLines] [stream .cr [twoLines]] List.flatten_singleton (by
    intro e he
    rw [List.mem_singleton.mp he]
    decide)
  have hout := ((feeds_iff [stream .cr [twoLines]] rfl (Nat.zero_le _) _).mp hcr).1
  rw [List.nil_append, List.flatten_singleton, drain_whole] at hout
  have hsingle := (drained_cr_iff false [twoLines]).mp hout.symm
  have hlen := (hsingle [] twoLines [] rfl (by decide)).2
  cases hlen

end Ai.Sse
