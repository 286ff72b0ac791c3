import VynkorPlugins.Base.Json
import VynkorPlugins.Base.Rust

/-!
# JSON pointers

Equality of JSON values and the look-up of a part of one, as `serde_json::Value` has them.
-/

namespace Rust

/-- `str::replace` of a text of two characters by one. -/
def replacePair (a b c : Char) : List Char → List Char
  | x :: y :: rest =>
    if x = a ∧ y = b then c :: replacePair a b c rest else x :: replacePair a b c (y :: rest)
  | rest => rest

/-- `str::find`: what is before the first occurrence of a text, and what comes after it. -/
def find (pat : List Char) : List Char → Option (List Char × List Char)
  | [] => if pat = [] then some ([], []) else none
  | c :: cs =>
    if pat.isPrefixOf (c :: cs) then some ([], (c :: cs).drop pat.length)
    else (find pat cs).map fun parts => (c :: parts.1, parts.2)

end Rust

namespace Json

/-- The two floating point zeros have different texts. -/
def FloatLit.same (x y : FloatLit) : Bool :=
  x.text = y.text || (x.text ∈ ["0.0", "-0.0"] && y.text ∈ ["0.0", "-0.0"])

mutual

/-- `==`. -/
def same : Json → Json → Bool
  | .null, .null => true
  | .bool a, .bool b => a = b
  | .int m, .int n => m = n
  | .float x, .float y => x.same y
  | .str s, .str t => s = t
  | .arr xs, .arr ys => sameItems xs ys
  | .obj fs, .obj gs => sameFields fs gs
  | _, _ => false

def sameItems : List Json → List Json → Bool
  | [], [] => true
  | x :: xs, y :: ys => x.same y && sameItems xs ys
  | _, _ => false

def sameFields : List (String × Json) → List (String × Json) → Bool
  | [], [] => true
  | (k, x) :: fs, (l, y) :: gs => k = l && x.same y && sameFields fs gs
  | _, _ => false

end

/-! ## Pointers -/

/-- The number of an item of an array. -/
def parseIndex (token : List Char) : Option Nat :=
  if token = [] ∨ token.any (fun c => !c.isDigit) ∨ (token.head? = some '0' ∧ token.length ≠ 1) then
    none
  else
    let n := token.foldl (fun n c => 10 * n + (c.toNat - '0'.toNat)) 0
    if n < 2 ^ 64 then some n else none

def unescapeToken (token : List Char) : List Char :=
  Rust.replacePair '~' '0' '~' (Rust.replacePair '~' '1' '/' token)

/-- One step of a pointer. -/
def child (j : Json) (token : List Char) : Option Json :=
  match j with
  | .obj _ => j.get (String.ofList token)
  | .arr items => (parseIndex token).bind fun n => items[n]?
  | _ => none

/-- `Value::pointer`. -/
def pointer (j : Json) (ptr : List Char) : Option Json :=
  match ptr with
  | [] => some j
  | '/' :: rest => ((rest.splitOn '/').map unescapeToken).foldlM child j
  | _ => none

end Json
