import VynkorPlugins.Base.Text

/-!
# Steam's manifests

What the launcher reads of the manifest of an installed game (`steam.rs`).
-/

namespace Launcher

structure SteamEntry where
  appid : List Char
  name : List Char
  path : String
  deriving DecidableEq

/-- A slice that does not begin and end between two characters. -/
inductive Panic
  | boundary
  deriving DecidableEq

/-- What follows the first occurrence of a key. -/
def after (key : List Char) : List Char → Option (List Char)
  | [] => if key = [] then some [] else none
  | c :: cs => if key.isPrefixOf (c :: cs) then some ((c :: cs).drop key.length) else after key cs

/-- The numbers of the characters before the first quoted text and before its end. -/
def scan (i : Nat) (start : Option Nat) (escaped : Bool) : List Char → Option Nat × Option Nat
  | [] => (start, none)
  | c :: cs =>
    if c = '"' ∧ escaped = false then
      match start with
      | none => scan (i + 1) (some (i + 1)) false cs
      | some s => (some s, some i)
    else scan (i + 1) start (c = '\\' && !escaped) cs

def extract_quoted_value (content key : List Char) : Except Panic (Option (List Char)) :=
  match after key content with
  | none => .ok none
  | some after =>
    match scan 0 none false after with
    | (some s, some e) =>
      match Rust.slice after s e with
      | some val => .ok (some val)
      | none => .error .boundary
    | _ => .ok none

def parse_appmanifest_content (content : List Char) (path : String) :
    Except Panic (Except String SteamEntry) := do
  match ← extract_quoted_value content "\"appid\"".toList with
  | none => return .error "missing appid"
  | some appid =>
    let name := (← extract_quoted_value content "\"name\"".toList).getD ("Steam App ".toList ++ appid)
    if Rust.trim (String.ofList appid) = "" ∨ appid.all Char.isDigit = false then
      return .error ("invalid appid '" ++ String.ofList appid ++ "'")
    else return .ok ⟨appid, name, path⟩

/-! ## Manifests -/

/-- Quotes and backslashes are escaped. -/
def escaped (s : List Char) : List Char :=
  s.flatMap fun c => if c = '"' ∨ c = '\\' then ['\\', c] else [c]

def quoted (s : List Char) : List Char := '"' :: escaped s ++ ['"']

def Blank (s : List Char) : Prop := ∀ c ∈ s, c ∈ [' ', '\t', '\n', '\r']

/-- A key and a value, with the blanks before each. -/
structure Pair where
  before : List Char
  key : List Char
  between : List Char
  value : List Char

namespace Pair

def text (p : Pair) : List Char := p.before ++ quoted p.key ++ (p.between ++ quoted p.value)

structure Wf (p : Pair) : Prop where
  before : Blank p.before
  between : Blank p.between

end Pair

/-- The manifest of a game: a block with its app id and its name, and any other pairs. -/
structure Manifest where
  appid : List Char
  name : List Char
  others : List (List Char × List Char)
  pairs : List Pair
  start : List Char
  opening : List Char
  closing : List Char
  finish : List Char
  digits : appid ≠ [] ∧ appid.all Char.isDigit = true
  wf : ∀ p ∈ pairs, p.Wf
  perm : (pairs.map fun p => (p.key, p.value)).Perm
    (("appid".toList, appid) :: ("name".toList, name) :: others)
  apart : ∀ p ∈ others, ∀ k ∈ ["appid".toList, "name".toList], p.1 ≠ k ∧ p.2 ≠ k
  blank : Blank start ∧ Blank opening ∧ Blank closing ∧ Blank finish

def Manifest.text (m : Manifest) : List Char :=
  m.start ++ quoted "AppState".toList ++
    (m.opening ++ '{' :: (m.pairs.flatMap Pair.text ++ (m.closing ++ '}' :: m.finish)))

/-- The texts of the block, in order. -/
def Manifest.strings (m : Manifest) : List (List Char) := m.pairs.flatMap fun p => [p.key, p.value]

end Launcher
