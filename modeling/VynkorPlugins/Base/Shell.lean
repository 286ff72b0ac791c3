import Mathlib.Data.List.Basic
import Mathlib.Data.List.Infix
import Mathlib.Tactic.Basic

/-!
# The words of a POSIX shell

The token recognition of the shell's language: quoting, operators and comments, with expansions of parameters
by their names. What a text with any other expansion means is left open: it has no tokens here.
-/

namespace Shell

/-- A part of a word: a character, or the value of a parameter. -/
inductive Piece
  | lit (c : Char) (quoted : Bool)
  | param (name : List Char) (quoted : Bool)
  deriving DecidableEq

abbrev Word := List Piece

inductive Token
  | word (w : Word)
  | operator (op : List Char)
  deriving DecidableEq

/-- What the characters that were read are a part of. -/
inductive Mode
  | blank
  | comment
  | operator (op : List Char)
  | plain (w : Word)
  | single (w : Word)
  | double (w : Word)
  | escaped (w : Option Word)
  | escapedDouble (w : Word)
  | param (quoted : Bool) (w : Word) (name : List Char)

structure State where
  tokens : List Token
  mode : Mode

/-! ## Token recognition -/

def isBlank (c : Char) : Bool := c = ' ' || c = '\t'

def operators : List (List Char) :=
  [['&'], ['&', '&'], ['('], [')'], [';'], [';', ';'], ['\n'], ['|'], ['|', '|'], ['<'], ['>'], ['<', '<'],
    ['>', '>'], ['<', '&'], ['>', '&'], ['<', '<', '-'], ['<', '>'], ['>', '|']]

/-- A name goes on with the character. -/
def goesOn (name : List Char) (c : Char) : Bool :=
  c.isAlpha || c = '_' || (!name.isEmpty && c.isDigit)

variable (tokens : List Token)

/-- A character that is not quoted, in a word or where one begins. -/
def unquoted (w : Option Word) (c : Char) : Option State :=
  if c = '\\' then some ⟨tokens, .escaped w⟩
  else if c = '\'' then some ⟨tokens, .single (w.getD [])⟩
  else if c = '"' then some ⟨tokens, .double (w.getD [])⟩
  else if c = '$' then some ⟨tokens, .param false (w.getD []) []⟩
  else if c = Char.ofNat 96 then none
  else some ⟨tokens, .plain (w.getD [] ++ [.lit c false])⟩

/-- The character after the end of a token. -/
def start (c : Char) : Option State :=
  if isBlank c then some ⟨tokens, .blank⟩
  else if [c] ∈ operators then some ⟨tokens, .operator [c]⟩
  else if c = '#' then some ⟨tokens, .comment⟩
  else unquoted tokens none c

def inWord (w : Word) (c : Char) : Option State :=
  if isBlank c ∨ [c] ∈ operators then start (tokens ++ [.word w]) c else unquoted tokens (some w) c

/-- A character between double quotes. -/
def inDouble (w : Word) (c : Char) : Option State :=
  if c = '"' then some ⟨tokens, .plain w⟩
  else if c = '\\' then some ⟨tokens, .escapedDouble w⟩
  else if c = '$' then some ⟨tokens, .param true w []⟩
  else if c = Char.ofNat 96 then none
  else some ⟨tokens, .double (w ++ [.lit c true])⟩

def step (s : State) (c : Char) : Option State :=
  match s.mode with
  | .blank => start s.tokens c
  | .comment => if c = '\n' then start s.tokens c else some s
  | .operator op =>
    if op ++ [c] ∈ operators then some ⟨s.tokens, .operator (op ++ [c])⟩
    else start (s.tokens ++ [.operator op]) c
  | .plain w => inWord s.tokens w c
  | .single w =>
    if c = '\'' then some ⟨s.tokens, .plain w⟩ else some ⟨s.tokens, .single (w ++ [.lit c true])⟩
  | .double w => inDouble s.tokens w c
  | .escaped w =>
    -- an escaped end of line is removed
    if c = '\n' then some ⟨s.tokens, w.elim .blank .plain⟩
    else some ⟨s.tokens, .plain (w.getD [] ++ [.lit c true])⟩
  | .escapedDouble w =>
    if c = '\n' then some ⟨s.tokens, .double w⟩
    else if c = '$' ∨ c = Char.ofNat 96 ∨ c = '"' ∨ c = '\\' then
      some ⟨s.tokens, .double (w ++ [.lit c true])⟩
    else some ⟨s.tokens, .double (w ++ [.lit '\\' true, .lit c true])⟩
  | .param quoted w name =>
    if goesOn name c then some ⟨s.tokens, .param quoted w (name ++ [c])⟩
    else if name = [] then none
    else if quoted then inDouble s.tokens (w ++ [.param name true]) c
    else inWord s.tokens (w ++ [.param name false]) c

/-- The tokens at the end of a text. -/
def finish (s : State) : Option (List Token) :=
  match s.mode with
  | .blank | .comment => some s.tokens
  | .operator op => some (s.tokens ++ [.operator op])
  | .plain w => some (s.tokens ++ [.word w])
  | .param false w name =>
    if name = [] then none else some (s.tokens ++ [.word (w ++ [.param name false])])
  | _ => none

/-- The tokens of a text. -/
def tokenize (text : List Char) : Option (List Token) :=
  (text.foldlM step ⟨[], .blank⟩).bind finish

/-! ## Simple commands -/

/-- The text of a word that no expansion applies to, with its quotes removed. -/
def literal (w : Word) : Option (List Char) :=
  w.mapM fun
    | .lit c quoted => if quoted || ¬ c ∈ ['*', '?', '[', '~'] then some c else none
    | .param .. => none

/-- A word is cut at its first unquoted `=`. -/
def cutAssignment : Word → Option (List Char × Word)
  | .lit c false :: w => if c = '=' then some ([], w) else (cutAssignment w).map fun (name, v) => (c :: name, v)
  | _ => none

def isName : List Char → Bool
  | [] => false
  | c :: cs => (c.isAlpha || c = '_') && cs.all fun c => c.isAlphanum || c = '_'

/-- `name=value` -/
def assignment (w : Word) : Option (List Char × Word) :=
  (cutAssignment w).filter fun p => isName p.1

def reserved : List Word :=
  ["!", "\x7b", "\x7d", "case", "do", "done", "elif", "else", "esac", "fi", "for", "if", "in", "then", "until",
    "while"].map fun s => s.toList.map (.lit · false)

structure Command where
  assignments : List (List Char × List Char)
  argv : List (List Char)
  deriving DecidableEq

/-- The words of a command, from its name on. -/
def arguments (tokens : List Token) : Option (List (List Char)) :=
  tokens.mapM fun
    | .word w => literal w
    | .operator _ => none

/-- One simple command with no redirection, none of whose words an expansion applies to. -/
def simpleCommand : List Token → Option Command
  | [] => some ⟨[], []⟩
  | .operator _ :: _ => none
  | .word w :: tokens =>
    match assignment w with
    | some (name, value) => do
      let value ← literal value
      let command ← simpleCommand tokens
      return { command with assignments := (name, value) :: command.assignments }
    | none => if w ∈ reserved then none else (arguments (.word w :: tokens)).map (⟨[], ·⟩)

/-! ## Quoted texts -/

/-- A text between single quotes, with each single quote in it taken out and escaped. -/
def quote (s : List Char) : List Char :=
  '\'' :: s.flatMap (fun c => if c = '\'' then ['\'', '\\', '\'', '\''] else [c]) ++ ['\'']

/-- The characters of a word, all quoted or all not. -/
def lits (quoted : Bool) (s : List Char) : Word := s.map fun c => .lit c quoted

variable {tokens : List Token} {w : Word} {s name : List Char} {c : Char}

theorem foldlM_quoted (s : List Char) (w : Word) :
    (s.flatMap fun c => if c = '\'' then ['\'', '\\', '\'', '\''] else [c]).foldlM step
      ⟨tokens, .single w⟩ = some ⟨tokens, .single (w ++ lits true s)⟩ := by
  induction s generalizing w with
  | nil => simp [lits]
  | cons c s ih =>
    rw [List.flatMap_cons, List.foldlM_append]
    have hone : (if c = '\'' then ['\'', '\\', '\'', '\''] else [c]).foldlM step ⟨tokens, .single w⟩ =
        some ⟨tokens, .single (w ++ [.lit c true])⟩ := by
      by_cases hc : c = '\''
      · subst hc
        rfl
      · simp [hc, step]
    rw [hone]
    show (s.flatMap _).foldlM step ⟨tokens, .single (w ++ [Piece.lit c true])⟩ = _
    rw [ih, List.append_assoc]
    rfl

/-- A quoted text goes on with a word. -/
theorem foldlM_quote_plain (w : Word) (s : List Char) :
    (quote s).foldlM step ⟨tokens, .plain w⟩ = some ⟨tokens, .plain (w ++ lits true s)⟩ := by
  have hopen : step ⟨tokens, .plain w⟩ '\'' = some ⟨tokens, .single w⟩ := rfl
  unfold quote
  rw [List.cons_append, List.foldlM_cons, hopen]
  show (_ ++ ['\'']).foldlM step ⟨tokens, .single w⟩ = _
  rw [List.foldlM_append, foldlM_quoted]
  rfl

/-- A quoted text is a word. -/
theorem foldlM_quote (s : List Char) :
    (quote s).foldlM step ⟨tokens, .blank⟩ = some ⟨tokens, .plain (lits true s)⟩ := by
  have hopen : step ⟨tokens, .blank⟩ '\'' = step ⟨tokens, .plain []⟩ '\'' := rfl
  have hplain : (quote s).foldlM step ⟨tokens, .plain []⟩ = some ⟨tokens, .plain ([] ++ lits true s)⟩ :=
    foldlM_quote_plain [] s
  unfold quote at hplain ⊢
  rw [List.cons_append, List.foldlM_cons] at hplain ⊢
  rw [hopen, hplain, List.nil_append]

/-- The characters that mean something where they are not quoted. -/
def special : List Char :=
  [' ', '\t', '\n', '&', '(', ')', ';', '|', '<', '>', '\\', '\'', '"', '$', Char.ofNat 96, '#']

theorem not_operator_of_not_special (h : c ∉ special) : [c] ∉ operators := by
  simp only [special, List.mem_cons, not_or] at h
  simp [operators, h]

theorem unquoted_of_not_special {o : Option Word} (h : c ∉ special) :
    unquoted tokens o c = some ⟨tokens, .plain (o.getD [] ++ [.lit c false])⟩ := by
  simp only [special, List.mem_cons, not_or] at h
  simp [unquoted, h]

theorem step_plain_of_not_special (h : c ∉ special) :
    step ⟨tokens, .plain w⟩ c = some ⟨tokens, .plain (w ++ [.lit c false])⟩ := by
  have hblank : isBlank c = false := by
    simp only [special, List.mem_cons, not_or] at h
    simp [isBlank, h]
  show inWord tokens w c = _
  rw [inWord, if_neg (by simp [hblank, not_operator_of_not_special h]), unquoted_of_not_special h]
  rfl

theorem step_blank_of_not_special (h : c ∉ special) :
    step ⟨tokens, .blank⟩ c = some ⟨tokens, .plain [.lit c false]⟩ := by
  have hblank : isBlank c = false ∧ c ≠ '#' := by
    simp only [special, List.mem_cons, not_or] at h
    simp [isBlank, h]
  show start tokens c = _
  rw [start, if_neg (by simp [hblank]), if_neg (not_operator_of_not_special h), if_neg hblank.2,
    unquoted_of_not_special h]
  rfl

theorem foldlM_plain_of_not_special (h : ∀ c ∈ s, c ∉ special) (w : Word) :
    s.foldlM step ⟨tokens, .plain w⟩ = some ⟨tokens, .plain (w ++ lits false s)⟩ := by
  induction s generalizing w with
  | nil => simp [lits]
  | cons c s ih =>
    rw [List.foldlM_cons, step_plain_of_not_special (h c List.mem_cons_self)]
    show s.foldlM step ⟨tokens, .plain (w ++ [Piece.lit c false])⟩ = _
    rw [ih (fun c hc => h c (List.mem_cons_of_mem _ hc)), List.append_assoc]
    rfl

theorem not_special_of_name (h : c.isAlphanum ∨ c = '_') : c ∉ special := by
  have hnone : ∀ d ∈ special, d.isAlphanum = false ∧ d ≠ '_' := by simp [special]
  intro hc
  obtain ⟨hal, hus⟩ := hnone c hc
  rcases h with h | h
  · rw [hal] at h
    cases h
  · exact hus h

theorem name_chars (h : isName name = true) : ∀ c ∈ name, c.isAlphanum ∨ c = '_' := by
  cases name with
  | nil => cases h
  | cons d ds =>
    simp only [isName, Bool.and_eq_true, Bool.or_eq_true, decide_eq_true_eq, List.all_eq_true] at h
    intro c hc
    rcases List.mem_cons.mp hc with rfl | hc
    · rcases h.1 with hd | hd
      · exact .inl (by simp [Char.isAlphanum, hd])
      · exact .inr hd
    · exact h.2 c hc

/-- `name='value'` is a word. -/
theorem foldlM_assignment (hname : isName name = true) (value : List Char) :
    (name ++ '=' :: quote value).foldlM step ⟨tokens, .blank⟩ =
      some ⟨tokens, .plain (lits false name ++ .lit '=' false :: lits true value)⟩ := by
  have hchars := name_chars hname
  obtain ⟨c, cs, rfl⟩ : ∃ c cs, name = c :: cs := by
    cases name with
    | nil => cases hname
    | cons c cs => exact ⟨c, cs, rfl⟩
  rw [List.cons_append, List.foldlM_cons,
    step_blank_of_not_special (not_special_of_name (hchars c List.mem_cons_self))]
  show (cs ++ '=' :: quote value).foldlM step ⟨tokens, .plain [.lit c false]⟩ = _
  rw [List.foldlM_append, foldlM_plain_of_not_special fun d hd =>
    not_special_of_name (hchars d (List.mem_cons_of_mem _ hd))]
  show ('=' :: quote value).foldlM step ⟨tokens, .plain ([Piece.lit c false] ++ lits false cs)⟩ = _
  rw [List.foldlM_cons, step_plain_of_not_special (by decide)]
  show (quote value).foldlM step
    ⟨tokens, .plain ([Piece.lit c false] ++ lits false cs ++ [Piece.lit '=' false])⟩ = _
  rw [foldlM_quote_plain, List.append_assoc _ [Piece.lit '=' false]]
  rfl

theorem literal_lits (s : List Char) : literal (lits true s) = some s := by
  induction s with
  | nil => rfl
  | cons c s ih =>
    unfold literal lits at ih ⊢
    rw [List.map_cons, List.mapM_cons, ih]
    rfl

theorem assignment_lits (s : List Char) : assignment (lits true s) = none := by
  cases s <;> rfl

theorem cutAssignment_append (h : ∀ c ∈ name, c ≠ '=') :
    cutAssignment (lits false name ++ .lit '=' false :: w) = some (name, w) := by
  induction name with
  | nil => rfl
  | cons c name ih =>
    show (if c = '=' then _ else (cutAssignment (lits false name ++ _)).map _) = _
    rw [if_neg (h c List.mem_cons_self), ih fun d hd => h d (List.mem_cons_of_mem _ hd)]
    rfl

theorem assignment_append (h : isName name = true) :
    assignment (lits false name ++ .lit '=' false :: w) = some (name, w) := by
  unfold assignment
  rw [cutAssignment_append]
  · simp [Option.filter, h]
  · intro c hc heq
    subst heq
    rcases name_chars h '=' hc with hc | hc
    · cases hc
    · cases hc

/-- Whether a word starts with a character that is not quoted. -/
def startsBare (w : Word) : Bool :=
  w.head?.any fun
    | .lit _ quoted => !quoted
    | _ => false

/-- A quoted word is not reserved. -/
theorem lits_not_reserved (s : List Char) : lits true s ∉ reserved := by
  intro h
  have hhead : ∀ w ∈ reserved, startsBare w = true := by
    decide
  have hquoted := hhead _ h
  cases s with
  | nil => cases hquoted
  | cons c s => cases hquoted

theorem arguments_lits (args : List (List Char)) :
    arguments (args.map fun s => .word (lits true s)) = some args := by
  unfold arguments
  induction args with
  | nil => rfl
  | cons s args ih =>
    rw [List.map_cons, List.mapM_cons, ih]
    show (literal (lits true s)).bind _ = _
    rw [literal_lits]
    rfl

/-- Quoted words are a command's name and its arguments. -/
theorem simpleCommand_lits (args : List (List Char)) :
    simpleCommand (args.map fun s => .word (lits true s)) = some ⟨[], args⟩ := by
  cases args with
  | nil => rfl
  | cons s args =>
    have harguments := arguments_lits (s :: args)
    rw [List.map_cons] at harguments ⊢
    simp only [simpleCommand, assignment_lits, if_neg (lits_not_reserved s), harguments, Option.map_some]

theorem simpleCommand_assignment {rest : List Token} {command : Command} {value : List Char}
    (h : isName name = true) (hrest : simpleCommand rest = some command) :
    simpleCommand (.word (lits false name ++ .lit '=' false :: lits true value) :: rest) =
      some { command with assignments := (name, value) :: command.assignments } := by
  simp only [simpleCommand, assignment_append h, literal_lits, hrest]
  rfl

end Shell
