import Mathlib.Data.List.DropRight
import Mathlib.Data.String.Basic
import Mathlib.Tactic.Linarith

/-!
# Rust's integers and texts

What the standard library of the source does where Lean's own functions differ.
-/

namespace Rust

/-- The largest `i64`. -/
def i64Max : Nat := 2 ^ 63 - 1

/-- What is left of an integer in an `i64`. -/
def wrapI64 (x : Int) : Int := x.bmod (2 ^ 64)

/-- Two readings of a clock are subtracted without a wrap. -/
theorem toInt_sub_of_nonneg {a b : Int64} (ha : 0 ≤ a) (hb : 0 ≤ b) :
    (a - b).toInt = a.toInt - b.toInt := by
  rw [Int64.le_iff_toInt_le, show (0 : Int64).toInt = 0 from rfl] at ha hb
  rw [Int64.toInt_sub]
  have hlt := a.toInt_lt
  have hlt' := b.toInt_lt
  exact Int.bmod_eq_of_le (by omega) (by omega)

/-- `as i64`. -/
theorem toInt_toInt64 {n : UInt64} (h : n.toNat < 2 ^ 63) : n.toInt64.toInt = n.toNat := by
  rw [← Int64.toInt_toBitVec, UInt64.toBitVec_toInt64, BitVec.toInt_eq_toNat_of_lt]
  · rfl
  · have hlt : 2 * n.toNat < 2 ^ 64 := by omega
    simpa using hlt

/-- `?` goes on with what is `Ok`. -/
theorem bind_eq_ok {ε α β : Type} {m : Except ε α} {f : α → Except ε β} {b : β} :
    (m >>= f) = .ok b ↔ ∃ a, m = .ok a ∧ f a = .ok b := by
  constructor
  · intro h
    cases m with
    | error e => cases h
    | ok a => exact ⟨a, rfl, h⟩
  · rintro ⟨a, rfl, h⟩
    exact h

theorem map_eq_ok {ε α β : Type} {m : Except ε α} {f : α → β} {b : β} :
    m.map f = .ok b ↔ ∃ a, m = .ok a ∧ f a = b := by
  cases m with
  | error e => exact ⟨fun h => (nomatch h), fun ⟨_, h, _⟩ => (nomatch h)⟩
  | ok a =>
    constructor
    · exact fun h => ⟨a, rfl, Except.ok.inj h⟩
    · rintro ⟨a', ha, rfl⟩
      exact congrArg (fun r => Except.map f r) ha

/-- `if p { return Err(e) }` -/
def reject {ε : Type} (p : Prop) [Decidable p] (e : ε) : Except ε Unit :=
  if p then .error e else .ok ()

theorem reject_eq_ok {ε : Type} {p : Prop} [Decidable p] {e : ε} {u : Unit} :
    reject p e = .ok u ↔ ¬ p := by
  unfold reject
  split_ifs with hp
  · exact ⟨fun h => (nomatch h), fun h => absurd hp h⟩
  · exact ⟨fun _ => hp, fun _ => rfl⟩

/-- What is done with a member that is there. -/
def checked {ε α β : Type} (check : α → Except ε β) : Option α → Except ε (Option β)
  | none => .ok none
  | some a => (check a).map some

/-- What a check says of a member, if it is there. -/
theorem of_checked {ε α β : Type} {check : α → Except ε β} {o : Option α} {o' : Option β}
    (h : checked check o = .ok o') : ∀ b ∈ o', ∃ a ∈ o, check a = .ok b := by
  rintro b rfl
  cases o with
  | none => cases h
  | some a =>
    obtain ⟨b', hb, hsome⟩ := map_eq_ok.mp h
    obtain rfl := Option.some.inj hsome
    exact ⟨a, rfl, hb⟩

/-- A check that is made of a member that is there. -/
theorem check_of_checked {ε α β : Type} {check : α → Except ε β} {o : Option α} {o' : Option β}
    (h : checked check o = .ok o') : ∀ a ∈ o, ∃ b, check a = .ok b := by
  rintro a rfl
  obtain ⟨b, hb, -⟩ := map_eq_ok.mp h
  exact ⟨b, hb⟩

/-- A character as `{:?}` shows it inside of a string. -/
def debugChar (c : Char) : List Char :=
  if c = '"' then ['\\', '"']
  else if c = '\\' then ['\\', '\\']
  else if c = '\n' then ['\\', 'n']
  else if c = '\r' then ['\\', 'r']
  else if c = '\t' then ['\\', 't']
  else if c = '\x00' then ['\\', '0']
  else if c.toNat < 32 ∨ c.toNat = 127 then "\\u\x7b".toList ++ Nat.toDigits 16 c.toNat ++ ['\x7d']
  else [c]

/-- `{:?}` of a string. -/
def debug (s : String) : String :=
  String.ofList ('"' :: s.toList.flatMap debugChar ++ ['"'])

/-! ## Cutting texts -/

/-- The characters Unicode counts as white space. -/
def isWhitespace (c : Char) : Bool :=
  let n := c.toNat
  (9 ≤ n ∧ n ≤ 13) ∨ n = 32 ∨ n = 0x85 ∨ n = 0xa0 ∨ n = 0x1680 ∨ (0x2000 ≤ n ∧ n ≤ 0x200a) ∨
    n = 0x2028 ∨ n = 0x2029 ∨ n = 0x202f ∨ n = 0x205f ∨ n = 0x3000

/-- `str::trim`. -/
def trim (s : String) : String :=
  String.ofList ((s.toList.dropWhile isWhitespace).rdropWhile isWhitespace)

/-- `str::split_whitespace`. -/
def splitWhitespace (s : String) : List String :=
  ((s.toList.splitOnP isWhitespace).filter fun piece => !piece.isEmpty).map String.ofList

/-- `str::contains`. -/
def contains (s pattern : String) : Bool :=
  s.toList.tails.any fun rest => pattern.toList.isPrefixOf rest

/-- `str::replace` of a character. -/
def replaceChar (c : Char) (new cs : List Char) : List Char :=
  cs.flatMap fun d => if d = c then new else [d]

/-- The longest prefix of some characters that takes at most `max` bytes. -/
def takeBytes : Nat → List Char → List Char
  | _, [] => []
  | max, c :: cs => if c.utf8Size ≤ max then c :: takeBytes (max - c.utf8Size) cs else []

/-- `str::split_once` at a character. -/
def splitOnce (s : String) (c : Char) : Option (String × String) :=
  match s.toList.dropWhile (· ≠ c) with
  | _ :: rest => some (String.ofList (s.toList.takeWhile (· ≠ c)), String.ofList rest)
  | [] => none

/-- `String::truncate`, which panics inside of a character. -/
def truncate (s : String) (len : Nat) : Option String :=
  if s.utf8ByteSize < len then some s
  else
    let kept := String.ofList (takeBytes len s.toList)
    if kept.utf8ByteSize = len then some kept else none

/-- The number that some digits spell. -/
def digitsNat (digits : List Char) : Nat :=
  digits.foldl (fun n c => 10 * n + (c.toNat - 48)) 0

/-- `parse::<i64>` -/
def parseI64 (digits : List Char) : Option Int64 :=
  let (neg, digits) := match digits with
    | '-' :: cs => (true, cs)
    | '+' :: cs => (false, cs)
    | cs => (false, cs)
  if digits.isEmpty || !digits.all Char.isDigit then none
  else
    let n : Int := if neg then -digitsNat digits else digitsNat digits
    if -2 ^ 63 ≤ n ∧ n < 2 ^ 63 then some (Int64.ofInt n) else none

/-- `str::lines`: a line ends with `\n` or `\r\n`, and the last one need not end. -/
def lines (text : List Char) : List (List Char) :=
  let pieces := text.splitOnP (· = '\n')
  let ended := pieces.dropLast.map fun line => if line.getLast? = some '\r' then line.dropLast else line
  match pieces.getLast? with
  | some [] | none => ended
  | some line => ended ++ [line]

/-- `to_ascii_uppercase` -/
def toAsciiUppercase (text : List Char) : List Char := text.map Char.toUpper

/-- `parse::<u64>`. -/
def parseU64 (s : String) : Option UInt64 :=
  let digits := match s.toList with
    | '+' :: cs => cs
    | cs => cs
  if digits.isEmpty || !digits.all Char.isDigit then none
  else
    let n := digits.foldl (fun n c => 10 * n + (c.toNat - 48)) 0
    if n < 2 ^ 64 then some (UInt64.ofNat n) else none

end Rust

/-!
## Checked integers

The integers of 64 bits as a build with overflow checks computes them: a result that does not fit ends
the program. A computation that is given a number of turns may run out of them.
-/

namespace Checked

/-- What ends a computation. -/
inductive Stop where
  | overflow
  | fuel
deriving DecidableEq

/-- The integer is an `i64`. -/
def Fits (n : Int) : Prop := -(2 : Int) ^ 63 ≤ n ∧ n < 2 ^ 63

instance : DecidablePred Fits := fun n => inferInstanceAs (Decidable (-(2 : Int) ^ 63 ≤ n ∧ n < 2 ^ 63))

/-- The result of an operation. -/
def fit (n : Int) : Except Stop Int :=
  if Fits n then .ok n else .error .overflow

variable {n m : Int}

theorem fit_eq_ok : fit n = .ok m ↔ Fits n ∧ m = n := by
  unfold fit
  split_ifs with h
  · exact ⟨fun heq => ⟨h, (Except.ok.inj heq).symm⟩, fun heq => congrArg Except.ok heq.2.symm⟩
  · exact ⟨fun heq => (nomatch heq), fun heq => absurd heq.1 h⟩

theorem fit_of_fits (h : Fits n) : fit n = .ok n := if_pos h

theorem Fits.toInt_ofInt (h : Fits n) : (Int64.ofInt n).toInt = n :=
  Int64.toInt_ofInt_of_le h.1 h.2

/-- A computation goes on behind an operation that does not end it. -/
theorem bind_ok {ε α β : Type} {m : Except ε α} {f : α → Except ε β} {a : α} (hm : m = .ok a)
    (h : ∃ b, f a = .ok b) : ∃ b, (m >>= f) = .ok b := by
  subst hm
  exact h

/-- An operation whose result fits. -/
theorem bind_fit {β : Type} {f : Int → Except Stop β} (h : Fits n) (hf : ∃ b, f n = .ok b) :
    ∃ b, (fit n >>= f) = .ok b := bind_ok (fit_of_fits h) hf

end Checked
