import VynkorPlugins.Base.Text

/-!
# Desktop entries

The command line of a desktop entry, as the launcher splits it (`desktop.rs`).
-/

namespace Launcher

/-- A percent sign and the character after it are removed. -/
def strip_percent : List Char → List Char
  | [] => []
  | c :: cs =>
    if c = '%' then
      match cs with
      | [] => []
      | _ :: cs => strip_percent cs
    else c :: strip_percent cs

def strip_field_codes (exec : List Char) : List Char :=
  Rust.joined (Rust.words (strip_percent exec))

/-- The splitting of a line: the arguments so far, and what is read of the next one. -/
structure Split where
  args : List (List Char)
  cur : List Char
  in_single : Bool := false
  in_double : Bool := false
  escaped : Bool := false

namespace Split

def push (s : Split) (c : Char) : Split := { s with cur := s.cur ++ [c] }

def step (s : Split) (c : Char) : Split :=
  if s.escaped then { s.push c with escaped := false }
  else if c = '\\' ∧ s.in_single = false then { s with escaped := true }
  else if c = '\'' ∧ s.in_double = false then { s with in_single := !s.in_single }
  else if c = '"' ∧ s.in_single = false then { s with in_double := !s.in_double }
  else if (c = ' ' ∨ c = '\t') ∧ s.in_single = false ∧ s.in_double = false then
    if s.cur = [] then s else { s with args := s.args ++ [s.cur], cur := [] }
  else s.push c

/-- The arguments at the end of a line. -/
def finish (s : Split) : List (List Char) := s.args ++ if s.cur = [] then [] else [s.cur]

end Split

def exec_argv (exec : List Char) : List (List Char) :=
  ((strip_field_codes exec).foldl Split.step ⟨[], [], false, false, false⟩).finish

/-! ## The rules of the command line -/

/-- The characters that have to be quoted. -/
def reserved : List Char :=
  [' ', '\t', '\n', '"', '\'', '\\', '>', '<', '~', '|', '&', ';', '$', '*', '?', '#', '(', ')', Char.ofNat 96]

def fieldCodes : List Char := ['f', 'F', 'u', 'U', 'd', 'D', 'n', 'N', 'i', 'c', 'k', 'v', 'm']

/-- A part of a command line. -/
inductive Item
  | plain (s : List Char)
  | quoted (s : List Char)
  | code (c : Char)

namespace Item

/-- An argument is written without quotes only if it may be. -/
def Legal : Item → Prop
  | plain s => s ≠ [] ∧ ∀ c ∈ s, c ∉ reserved
  | quoted _ => True
  | code c => c ∈ fieldCodes

/-- The characters that are escaped between quotes. -/
def escaped : List Char := ['"', Char.ofNat 96, '$', '\\']

def escape (c : Char) : List Char :=
  if c = '%' then ['%', '%'] else if c ∈ escaped then ['\\', c] else [c]

def write : Item → List Char
  | plain s => s.flatMap escape
  | quoted s => '"' :: s.flatMap escape ++ ['"']
  | code c => ['%', c]

def argument : Item → Option (List Char)
  | plain s => some s
  | quoted s => some s
  | code _ => none

end Item

def line (items : List Item) : List Char := Rust.joined (items.map Item.write)

def arguments (items : List Item) : List (List Char) := items.filterMap Item.argument

end Launcher
