import Mathlib.Data.List.Infix
import Mathlib.Data.List.Perm.Basic
import Mathlib.Data.String.Basic
import Mathlib.Tactic.Basic

/-!
# Topic names and topic filters

The topics of MQTT 3.1.1: names are cut into levels at `/`, and a filter stands for the names it matches.
-/

namespace Topics

def levels (s : List Char) : List (List Char) := s.splitOn '/'

/-- `+` stands for one level, and a last `#` for any number of them. -/
def levelsMatch : List (List Char) → List (List Char) → Bool
  | [], [] => true
  | [], _ :: _ => false
  | f :: fs, [] => f = ['#'] && fs.isEmpty
  | f :: fs, t :: ts => (f = ['#'] && fs.isEmpty) || ((f = ['+'] || f = t) && levelsMatch fs ts)

def startsWild (filter : List Char) : Bool := filter.head? = some '+' || filter.head? = some '#'

/-- A filter matches a name, but no wildcard stands for a first level that begins with `$`. -/
def isMatch (filter topic : List Char) : Bool :=
  levelsMatch (levels filter) (levels topic) && !(startsWild filter && topic.head? = some '$')

/-- What both names and filters keep to. -/
structure IsText (s : List Char) : Prop where
  ne_nil : s ≠ []
  nul : Char.ofNat 0 ∉ s
  size : String.utf8Len s ≤ 65535

structure IsTopic (topic : List Char) : Prop extends IsText topic where
  hash : '#' ∉ topic
  plus : '+' ∉ topic

/-- A wildcard is a whole level, and `#` is the last one. -/
structure IsFilter (filter : List Char) : Prop extends IsText filter where
  before : ∀ l ∈ (levels filter).dropLast, '#' ∉ l
  hash : ∀ l ∈ levels filter, '#' ∈ l → l = ['#']
  plus : ∀ l ∈ levels filter, '+' ∈ l → l = ['+']

variable {s t p : List Char} {c : Char} {fs ts ps : List (List Char)}

theorem levels_append (s t : List Char) : levels (s ++ '/' :: t) = levels s ++ levels t :=
  List.splitOn_append_cons_self s t

theorem join_levels (s : List Char) : ['/'].intercalate (levels s) = s := List.intercalate_splitOn '/'

theorem levels_inj (h : levels s = levels t) : s = t := by
  rw [← join_levels s, h, join_levels]

theorem levels_ne_nil (s : List Char) : levels s ≠ [] := List.splitOn_ne_nil '/' s

theorem join_cons (hts : ts ≠ []) (t : List Char) :
    ['/'].intercalate (t :: ts) = t ++ '/' :: ['/'].intercalate ts := by
  rw [List.intercalate_cons_of_ne_nil hts, List.append_assoc]
  rfl

theorem mem_join (hc : c ≠ '/') : c ∈ ['/'].intercalate ts ↔ ∃ l ∈ ts, c ∈ l := by
  induction ts with
  | nil => simp [List.intercalate]
  | cons t ts ih =>
    cases ts with
    | nil => simp [List.intercalate]
    | cons t' ts =>
      rw [join_cons (List.cons_ne_nil t' ts), List.mem_append, List.mem_cons, ih]
      simp [hc]

theorem mem_levels (hc : c ≠ '/') : c ∈ s ↔ ∃ l ∈ levels s, c ∈ l := by
  rw [← mem_join hc, join_levels]

theorem join_append {us : List (List Char)} (hts : ts ≠ []) (hus : us ≠ []) :
    ['/'].intercalate (ts ++ us) = ['/'].intercalate ts ++ '/' :: ['/'].intercalate us := by
  induction ts with
  | nil => exact absurd rfl hts
  | cons t ts ih =>
    cases ts with
    | nil =>
      rw [List.singleton_append, join_cons hus]
      simp [List.intercalate]
    | cons t' ts =>
      rw [List.cons_append, join_cons (by simp), ih (List.cons_ne_nil t' ts),
        join_cons (List.cons_ne_nil t' ts), List.append_assoc]
      rfl

/-- A filter with a `#` is `#`, or ends with it. -/
theorem IsFilter.eq_hash (h : IsFilter s) (hash : '#' ∈ s) :
    s = ['#'] ∨ ∃ pre, '#' ∉ pre ∧ s = pre ++ ['/', '#'] := by
  obtain ⟨l, hl, hmem⟩ := (mem_levels (by decide)).mp hash
  obtain rfl := h.hash l hl hmem
  have hconcat := List.dropLast_concat_getLast (levels_ne_nil s)
  have hlast : (levels s).getLast (levels_ne_nil s) = ['#'] := by
    rw [← hconcat, List.mem_append, List.mem_singleton] at hl
    rcases hl with hl | hl
    · exact absurd hmem (h.before _ hl)
    · exact hl.symm
  rw [hlast] at hconcat
  have hnone := h.before
  generalize (levels s).dropLast = ls at hconcat hnone
  have hsplit := hconcat.symm
  by_cases hls : ls = []
  · subst hls
    left
    rw [← join_levels s, hsplit]
    rfl
  · right
    refine ⟨['/'].intercalate ls, fun hin => ?_, ?_⟩
    · obtain ⟨l, hl, hmem⟩ := (mem_join (by decide)).mp hin
      exact hnone l hl hmem
    · rw [← join_levels s, hsplit, join_append hls (by simp)]
      rfl

/-! ## What filters match -/

/-- Levels without wildcards match themselves. -/
theorem levelsMatch_iff_eq (h : ∀ f ∈ fs, f ≠ ['#'] ∧ f ≠ ['+']) :
    levelsMatch fs ts = true ↔ fs = ts := by
  induction fs generalizing ts with
  | nil => cases ts <;> simp [levelsMatch]
  | cons f fs ih =>
    obtain ⟨hhash, hplus⟩ := h f List.mem_cons_self
    cases ts with
    | nil => simp [levelsMatch, hhash]
    | cons t ts => simp [levelsMatch, hhash, hplus, ih fun f hf => h f (List.mem_cons_of_mem _ hf)]

/-- After levels without wildcards, a `#` stands for whatever follows. -/
theorem levelsMatch_concat_hash (h : ∀ f ∈ fs, f ≠ ['#'] ∧ f ≠ ['+']) :
    levelsMatch (fs ++ [['#']]) ts = true ↔ fs <+: ts := by
  induction fs generalizing ts with
  | nil => cases ts <;> simp [levelsMatch]
  | cons f fs ih =>
    obtain ⟨hhash, hplus⟩ := h f List.mem_cons_self
    cases ts with
    | nil => simp [levelsMatch, hhash]
    | cons t ts =>
      rw [List.cons_prefix_cons, ← ih fun f hf => h f (List.mem_cons_of_mem _ hf)]
      simp [levelsMatch, hhash, hplus]

/-- Levels without `#` are matched one by one. -/
theorem levelsMatch_eq_all (h : ∀ f ∈ fs, f ≠ ['#']) :
    levelsMatch fs ts = (fs.length == ts.length && (fs.zip ts).all fun p => p.1 = ['+'] || p.1 = p.2) := by
  induction fs generalizing ts with
  | nil => cases ts <;> simp [levelsMatch]
  | cons f fs ih =>
    have hhash := h f List.mem_cons_self
    cases ts with
    | nil => simp [levelsMatch, hhash]
    | cons t ts =>
      rw [levelsMatch, ih fun f hf => h f (List.mem_cons_of_mem _ hf)]
      simp [hhash, Bool.and_left_comm]

theorem levels_prefix_iff : levels p <+: levels t ↔ t = p ∨ p ++ ['/'] <+: t := by
  constructor
  · rintro ⟨rest, hrest⟩
    by_cases hempty : rest = []
    · subst hempty
      rw [List.append_nil] at hrest
      exact .inl (levels_inj hrest).symm
    · right
      refine ⟨['/'].intercalate rest, ?_⟩
      rw [← join_levels t, ← hrest, join_append (levels_ne_nil p) hempty, join_levels, List.append_assoc]
      rfl
  · rintro (rfl | ⟨rest, rfl⟩)
    · exact List.prefix_rfl
    · rw [List.append_assoc]
      exact ⟨levels rest, (levels_append p rest).symm⟩

end Topics
