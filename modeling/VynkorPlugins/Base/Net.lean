import Mathlib.Data.List.Basic
import Mathlib.Data.String.Basic

/-!
# IP addresses

The addresses of `std::net`, their texts, and the ranges the standard library tells apart.
-/

namespace Net

structure Ipv4Addr where
  a : UInt8
  b : UInt8
  c : UInt8
  d : UInt8
deriving DecidableEq, Repr

/-- The eight segments of an IPv6 address. -/
structure Ipv6Addr where
  a : UInt16
  b : UInt16
  c : UInt16
  d : UInt16
  e : UInt16
  f : UInt16
  g : UInt16
  h : UInt16
deriving DecidableEq, Repr

inductive IpAddr where
  | v4 (addr : Ipv4Addr)
  | v6 (addr : Ipv6Addr)
deriving DecidableEq, Repr

/-! ## Ranges -/

namespace Ipv4Addr

def isUnspecified (x : Ipv4Addr) : Bool := x.a = 0 ∧ x.b = 0 ∧ x.c = 0 ∧ x.d = 0

def isLoopback (x : Ipv4Addr) : Bool := x.a = 127

def isPrivate (x : Ipv4Addr) : Bool :=
  x.a = 10 ∨ x.a = 172 ∧ 16 ≤ x.b ∧ x.b ≤ 31 ∨ x.a = 192 ∧ x.b = 168

def isLinkLocal (x : Ipv4Addr) : Bool := x.a = 169 ∧ x.b = 254

def isMulticast (x : Ipv4Addr) : Bool := 224 ≤ x.a ∧ x.a ≤ 239

def isBroadcast (x : Ipv4Addr) : Bool := x.a = 255 ∧ x.b = 255 ∧ x.c = 255 ∧ x.d = 255

end Ipv4Addr

namespace Ipv6Addr

def segments (x : Ipv6Addr) : List UInt16 := [x.a, x.b, x.c, x.d, x.e, x.f, x.g, x.h]

/-- Missing segments are zero. -/
def ofSegments (gs : List UInt16) : Ipv6Addr where
  a := gs.getD 0 0
  b := gs.getD 1 0
  c := gs.getD 2 0
  d := gs.getD 3 0
  e := gs.getD 4 0
  f := gs.getD 5 0
  g := gs.getD 6 0
  h := gs.getD 7 0

def isUnspecified (x : Ipv6Addr) : Bool := x.segments = [0, 0, 0, 0, 0, 0, 0, 0]

def isLoopback (x : Ipv6Addr) : Bool := x.segments = [0, 0, 0, 0, 0, 0, 0, 1]

def isUniqueLocal (x : Ipv6Addr) : Bool := x.a &&& 0xfe00 = 0xfc00

def isUnicastLinkLocal (x : Ipv6Addr) : Bool := x.a &&& 0xffc0 = 0xfe80

def isMulticast (x : Ipv6Addr) : Bool := x.a >>> 8 = 0xff

/-- `to_ipv4_mapped`: the address in `::ffff:a.b.c.d`. -/
def toIpv4Mapped (x : Ipv6Addr) : Option Ipv4Addr :=
  if x.segments.take 6 = [0, 0, 0, 0, 0, 0xffff] then
    some { a := (x.g >>> 8).toUInt8, b := x.g.toUInt8, c := (x.h >>> 8).toUInt8, d := x.h.toUInt8 }
  else none

end Ipv6Addr

/-! ## Writing -/

def octetChars (n : UInt8) : List Char := Nat.toDigits 10 n.toNat

def Ipv4Addr.chars (x : Ipv4Addr) : List Char :=
  octetChars x.a ++ '.' :: (octetChars x.b ++ '.' :: (octetChars x.c ++ '.' :: octetChars x.d))

/-- Segments in hexadecimal, separated by colons. -/
def segmentChars (gs : List UInt16) : List Char :=
  [':'].intercalate (gs.map fun g => Nat.toDigits 16 g.toNat)

/-- The start and the length of the longest run of zero segments. -/
def longestZeros (gs : List UInt16) : Nat × Nat :=
  let r := gs.zipIdx.foldl (fun r gi =>
    if gi.1 = 0 then
      let current := if r.1.2 = 0 then (gi.2, 1) else (r.1.1, r.1.2 + 1)
      (current, if current.2 > r.2.2 then current else r.2)
    else ((0, 0), r.2)) ((0, 0), (0, 0))
  r.2

/-- The segments with the longest run of zeros written as `::`. -/
def Ipv6Addr.compressed (x : Ipv6Addr) : List Char :=
  let zeros := longestZeros x.segments
  if zeros.2 > 1 then
    segmentChars (x.segments.take zeros.1) ++ "::".toList ++
      segmentChars (x.segments.drop (zeros.1 + zeros.2))
  else segmentChars x.segments

def Ipv6Addr.chars (x : Ipv6Addr) : List Char :=
  match x.toIpv4Mapped with
  | some v4 => "::ffff:".toList ++ v4.chars
  | none => x.compressed

/-- `to_string`. -/
def IpAddr.print : IpAddr → String
  | .v4 x => String.ofList x.chars
  | .v6 x => String.ofList x.chars

/-! ## Reading -/

/-- `char::to_digit`, for a radix of at most 16. -/
def toDigit (radix : Nat) (c : Char) : Option Nat :=
  let n :=
    if c.isDigit then some (c.toNat - '0'.toNat)
    else if 'a' ≤ c ∧ c ≤ 'f' then some (c.toNat - 'a'.toNat + 10)
    else if 'A' ≤ c ∧ c ≤ 'F' then some (c.toNat - 'A'.toNat + 10)
    else none
  n.filter fun n => n < radix

/-- A number of at most `max_digits` digits that is not over `max`, and the rest of the text. -/
def readNumber (radix max_digits : Nat) (zero_ok : Bool) (max : Nat) (cs : List Char) :
    Option (Nat × List Char) :=
  let ds := cs.takeWhile fun c => (toDigit radix c).isSome
  let n := ds.foldl (fun n c => n * radix + (toDigit radix c).getD 0) 0
  if ds.length > max_digits ∨ n > max ∨ ds = [] then none
  else if zero_ok = false ∧ ds.head? = some '0' ∧ ds.length > 1 then none
  else some (n, cs.dropWhile fun c => (toDigit radix c).isSome)

def readGivenChar (c : Char) : List Char → Option (List Char)
  | c' :: cs => if c' = c then some cs else none
  | [] => none

/-- Reads a separator before each part but the first. -/
def readSeparator {α : Type} (sep : Char) (index : Nat) (inner : List Char → Option (α × List Char))
    (cs : List Char) : Option (α × List Char) := do
  let cs ← if index > 0 then readGivenChar sep cs else some cs
  inner cs

def readOctet (cs : List Char) : Option (UInt8 × List Char) :=
  (readNumber 10 3 false 255 cs).map fun r => (r.1.toUInt8, r.2)

def readIpv4Addr (cs : List Char) : Option (Ipv4Addr × List Char) := do
  let (a, cs) ← readSeparator '.' 0 readOctet cs
  let (b, cs) ← readSeparator '.' 1 readOctet cs
  let (c, cs) ← readSeparator '.' 2 readOctet cs
  let (d, cs) ← readSeparator '.' 3 readOctet cs
  return ({ a, b, c, d }, cs)

/-- At most `left` segments from the `i`-th one on, the last two of which may be an IPv4 address;
    whether they are; and the rest of the text. -/
def readGroups : (i left : Nat) → List Char → List UInt16 × Bool × List Char
  | _, 0, cs => ([], false, cs)
  | i, left + 1, cs =>
    match if left > 0 then readSeparator ':' i readIpv4Addr cs else none with
    | some (v4, cs) =>
      ([v4.a.toUInt16 <<< 8 ||| v4.b.toUInt16, v4.c.toUInt16 <<< 8 ||| v4.d.toUInt16], true, cs)
    | none =>
      match readSeparator ':' i (readNumber 16 4 true 0xffff) cs with
      | some (g, cs) =>
        let r := readGroups (i + 1) left cs
        (g.toUInt16 :: r.1, r.2)
      | none => ([], false, cs)

def readIpv6Addr (cs : List Char) : Option (Ipv6Addr × List Char) := do
  let (head, head_ipv4, cs) := readGroups 0 8 cs
  if head.length = 8 then return (.ofSegments head, cs)
  -- an IPv4 address is not allowed before `::`
  if head_ipv4 then none
  let cs ← readGivenChar ':' cs
  let cs ← readGivenChar ':' cs
  let (tail, _, cs) := readGroups 0 (8 - (head.length + 1)) cs
  let zeros := List.replicate (8 - head.length - tail.length) 0
  return (.ofSegments (head ++ zeros ++ tail), cs)

def readIpAddr (cs : List Char) : Option (IpAddr × List Char) :=
  match readIpv4Addr cs with
  | some (x, cs) => some (.v4 x, cs)
  | none => (readIpv6Addr cs).map fun r => (.v6 r.1, r.2)

/-- `str::parse::<IpAddr>`: the whole text is an address. -/
def IpAddr.parse (s : String) : Option IpAddr :=
  match readIpAddr s.toList with
  | some (x, []) => some x
  | _ => none

/-! ## Reading what was written -/

/-- An octet in its two halves. -/
theorem octet_cases (n : UInt8) : ∃ a < 16, ∃ b < 16, n.toNat = a * 16 + b := by
  have hlt := n.toNat_lt
  refine ⟨n.toNat / 16, by omega, n.toNat % 16, by omega, ?_⟩
  exact (Nat.div_add_mod' n.toNat 16).symm

theorem octetChars_digits {n : UInt8} {c : Char} (h : c ∈ octetChars n) : (toDigit 10 c).isSome := by
  have hc : c.isDigit := Nat.isDigit_of_mem_toDigits (by decide) (by decide) h
  have hlt : c.toNat - '0'.toNat < 10 := by
    have hle := (Char.isDigit_iff_toNat.mp hc).2
    simp only [Char.reduceToNat] at hle ⊢
    omega
  unfold toDigit
  rw [if_pos hc, Option.filter_some, if_pos (decide_eq_true hlt)]
  rfl

theorem octetChars_value (n : UInt8) :
    (octetChars n).length ≤ 3 ∧ octetChars n ≠ [] ∧
    ¬ ((octetChars n).head? = some '0' ∧ (octetChars n).length > 1) ∧
    (octetChars n).foldl (fun n c => n * 10 + (toDigit 10 c).getD 0) 0 = n.toNat := by
  have hall : ∀ a < 16, ∀ b < 16, (Nat.toDigits 10 (a * 16 + b)).length ≤ 3 ∧
      Nat.toDigits 10 (a * 16 + b) ≠ [] ∧
      ¬ ((Nat.toDigits 10 (a * 16 + b)).head? = some '0' ∧
        (Nat.toDigits 10 (a * 16 + b)).length > 1) ∧
      (Nat.toDigits 10 (a * 16 + b)).foldl (fun n c => n * 10 + (toDigit 10 c).getD 0) 0 =
        a * 16 + b := by
    decide
  obtain ⟨a, ha, b, hb, hn⟩ := octet_cases n
  rw [octetChars, hn]
  exact hall a ha b hb

/-- An octet is read up to the next character that is no digit. -/
theorem readOctet_octetChars (n : UInt8) {rest : List Char}
    (hrest : ∀ c ∈ rest.head?, (toDigit 10 c).isSome = false) :
    readOctet (octetChars n ++ rest) = some (n, rest) := by
  have htake : (octetChars n ++ rest).takeWhile (fun c => (toDigit 10 c).isSome) = octetChars n := by
    rw [List.takeWhile_append_of_pos fun c hc => octetChars_digits hc]
    cases rest with
    | nil => simp
    | cons c rest => simp [hrest c rfl]
  have hdrop : (octetChars n ++ rest).dropWhile (fun c => (toDigit 10 c).isSome) = rest := by
    rw [List.dropWhile_append_of_pos fun c hc => octetChars_digits hc]
    cases rest with
    | nil => simp
    | cons c rest => simp [hrest c rfl]
  obtain ⟨hlen, hne, hzero, hvalue⟩ := octetChars_value n
  have hlt := n.toNat_lt
  unfold readOctet readNumber
  simp only [htake, hdrop, hvalue, true_and]
  rw [if_neg, if_neg hzero]
  · simp
  · rintro (h | h | h)
    · omega
    · omega
    · exact hne h

theorem readIpv4Addr_chars (x : Ipv4Addr) : readIpv4Addr x.chars = some (x, []) := by
  have hdot : ∀ (rest : List Char), ∀ c ∈ ('.' :: rest).head?, (toDigit 10 c).isSome = false := by
    rintro rest c hc
    obtain rfl := Option.some.inj hc
    decide
  have hend : readOctet (octetChars x.d) = some (x.d, []) := by
    have h := @readOctet_octetChars x.d [] (fun c hc => nomatch hc)
    rwa [List.append_nil] at h
  simp [readIpv4Addr, Ipv4Addr.chars, readSeparator, readGivenChar, readOctet_octetChars _ (hdot _),
    hend]

/-- An IPv4 address is read from its own text. -/
theorem parse_print_v4 (x : Ipv4Addr) : IpAddr.parse (IpAddr.v4 x).print = some (.v4 x) := by
  rw [IpAddr.parse, IpAddr.print, String.toList_ofList, readIpAddr, readIpv4Addr_chars]

end Net
