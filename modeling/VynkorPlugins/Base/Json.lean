import Mathlib.Data.String.Basic
import Mathlib.Tactic.Linarith

/-!
# JSON values and their compact text

The values of `serde_json::Value`, the compact text `serde_json::to_string` writes for them, and a
reader of such texts.
-/

namespace Json

/-- The characters a number is written with. -/
def isNumberChar (c : Char) : Bool :=
  c.isDigit || "+-.e".toList.contains c

/-- The text of a number that is told from an integer by its point or its exponent. -/
def FloatLit.Valid (text : List Char) : Prop :=
  (∀ c ∈ text, isNumberChar c) ∧ (∃ c ∈ text.head?, c.isDigit ∨ c = '-') ∧ ('.' ∈ text ∨ 'e' ∈ text)

instance (text : List Char) : Decidable (FloatLit.Valid text) := by
  unfold FloatLit.Valid
  exact @instDecidableAnd _ _ (List.decidableBAll _ _)
    (@instDecidableAnd _ _ (Option.decidableExistsMem _) inferInstance)

/-- A finite floating point number, as the shortest text that is read back as that number. -/
structure FloatLit where
  text : String
  valid : FloatLit.Valid text.toList

end Json

/-- A JSON value. An object lists its fields in the order in which they are written. -/
inductive Json where
  | null
  | bool (b : Bool)
  | int (n : Int)
  | float (x : Json.FloatLit)
  | str (s : String)
  | arr (items : List Json)
  | obj (fields : List (String × Json))

namespace Json

/-- The fields of an object; no other value has any. -/
def fields : Json → List (String × Json)
  | .obj fs => fs
  | _ => []

/-- The member `name` of an object. -/
def get (j : Json) (name : String) : Option Json :=
  (j.fields.find? fun f => f.1 = name).map Prod.snd

/-- The text of a string value. -/
def asStr : Json → Option String
  | .str s => some s
  | _ => none

/-- The number as a `u64`, if it is one. -/
def asU64 : Json → Option Nat
  | .int n => if 0 ≤ n ∧ n < 2 ^ 64 then some n.toNat else none
  | _ => none

/-- The number as an `i64`, if it is one. -/
def asI64 : Json → Option Int
  | .int n => if -2 ^ 63 ≤ n ∧ n < 2 ^ 63 then some n else none
  | _ => none

/-- Fields that are in the strict order of their names, as in a map of the source. -/
def Ordered (fs : List (String × Json)) : Prop :=
  (fs.map Prod.fst).Pairwise (· < ·)

/-! ## Writing -/

def hexDigit (n : Nat) : Char :=
  "0123456789abcdef".toList.getD n '0'

/-- A character of a string, escaped where JSON asks for it. -/
def escapeChar (c : Char) : List Char :=
  if c = '"' then ['\\', '"']
  else if c = '\\' then ['\\', '\\']
  else if c = '\n' then ['\\', 'n']
  else if c = '\r' then ['\\', 'r']
  else if c = '\t' then ['\\', 't']
  else if c = '\x08' then ['\\', 'b']
  else if c = '\x0c' then ['\\', 'f']
  else if c.toNat < 32 then ['\\', 'u', '0', '0', hexDigit (c.toNat / 16), hexDigit (c.toNat % 16)]
  else [c]

def stringChars (s : String) : List Char :=
  '"' :: s.toList.flatMap escapeChar ++ ['"']

def intChars : Int → List Char
  | .ofNat n => Nat.toDigits 10 n
  | .negSucc n => '-' :: Nat.toDigits 10 (n + 1)

mutual

def chars : Json → List Char
  | .null => "null".toList
  | .bool b => (if b then "true" else "false").toList
  | .int n => intChars n
  | .float x => x.text.toList
  | .str s => stringChars s
  | .arr [] => ['[', ']']
  | .arr (x :: xs) => '[' :: x.chars ++ itemsChars xs
  | .obj [] => ['{', '}']
  | .obj ((k, x) :: fs) => '{' :: stringChars k ++ ':' :: x.chars ++ fieldsChars fs

/-- The items of an array after its first one, up to the closing bracket. -/
def itemsChars : List Json → List Char
  | [] => [']']
  | x :: xs => ',' :: x.chars ++ itemsChars xs

/-- The fields of an object after its first one, up to the closing brace. -/
def fieldsChars : List (String × Json) → List Char
  | [] => ['}']
  | (k, x) :: fs => ',' :: stringChars k ++ ':' :: x.chars ++ fieldsChars fs

end

/-- `serde_json::to_string`. -/
def print (j : Json) : String :=
  String.ofList j.chars

/-- `serde_json::to_vec`. -/
def toVec (j : Json) : ByteArray :=
  j.print.toByteArray

/-! ## Reading -/

/-- A field put into an object whose fields are in the order of their names: the value of a name
    that is there already is replaced. -/
def insertField (k : String) (x : Json) : List (String × Json) → List (String × Json)
  | [] => [(k, x)]
  | (k', x') :: fs =>
    if k < k' then (k, x) :: (k', x') :: fs
    else if k = k' then (k, x) :: fs
    else (k', x') :: insertField k x fs

mutual

/-- The value a reader has after reading the text of `j`: an object keeps its fields in the order
    of their names, and the last one of those that share a name. -/
def normal : Json → Json
  | .arr xs => .arr (normalItems xs)
  | .obj fs => .obj (normalFields [] fs)
  | j => j

def normalItems : List Json → List Json
  | [] => []
  | x :: xs => x.normal :: normalItems xs

def normalFields (acc : List (String × Json)) : List (String × Json) → List (String × Json)
  | [] => acc
  | (k, x) :: fs => normalFields (insertField k x.normal acc) fs

end

def hexValue (c : Char) : Option Nat :=
  let i := "0123456789abcdef".toList.idxOf c
  if i < 16 then some i else none

/-- The character an escape of one letter stands for. -/
def unescape (c : Char) : Option Char :=
  [('"', '"'), ('\\', '\\'), ('n', '\n'), ('r', '\r'), ('t', '\t'), ('b', '\x08'), ('f', '\x0c'),
    ('/', '/')].lookup c

/-- The rest of a string after its opening quote. -/
def readString : List Char → Option (List Char × List Char)
  | [] => none
  | c :: rest =>
    if c = '"' then some ([], rest)
    else if c = '\\' then
      match rest with
      | [] => none
      | e :: rest =>
        if e = 'u' then
          match rest with
          | z :: z' :: a :: b :: rest =>
            match hexValue a, hexValue b with
            | some x, some y =>
              if z = '0' ∧ z' = '0' then
                (readString rest).map fun r => (Char.ofNat (16 * x + y) :: r.1, r.2)
              else none
            | _, _ => none
          | _ => none
        else
          match unescape e with
          | some x => (readString rest).map fun r => (x :: r.1, r.2)
          | none => none
    else (readString rest).map fun r => (c :: r.1, r.2)

def readNumber (token : List Char) : Option Json :=
  match token with
  | [] => none
  | c :: digits =>
    if (c :: digits).all Char.isDigit then some (.int (Nat.ofDigitChars 10 (c :: digits) 0))
    else if c = '-' ∧ digits ≠ [] ∧ digits.all Char.isDigit then
      some (.int (-(Nat.ofDigitChars 10 digits 0)))
    else if h : FloatLit.Valid (c :: digits) then some (.float ⟨String.ofList (c :: digits), by simpa using h⟩)
    else none

/-- The text after the word `w`. -/
def expect : List Char → List Char → Option (List Char)
  | [], text => some text
  | _ :: _, [] => none
  | w :: ws, c :: text => if w = c then expect ws text else none

mutual

/-- One value at the head of a compact text, and the text after it. The depth of the value is
    bounded by `fuel`. -/
def readValue : Nat → List Char → Option (Json × List Char)
  | 0, _ => none
  | _, [] => none
  | fuel + 1, c :: rest =>
    if c = 'n' then (expect "ull".toList rest).map fun r => (.null, r)
    else if c = 't' then (expect "rue".toList rest).map fun r => (.bool true, r)
    else if c = 'f' then (expect "alse".toList rest).map fun r => (.bool false, r)
    else if c = '"' then (readString rest).map fun r => (.str (String.ofList r.1), r.2)
    else if c = '[' then
      match expect [']'] rest with
      | some rest => some (.arr [], rest)
      | none =>
        match readValue fuel rest with
        | some (x, rest) => (readItems fuel rest).map fun r => (.arr (x :: r.1), r.2)
        | none => none
    else if c = '{' then
      match expect ['}'] rest with
      | some rest => some (.obj [], rest)
      | none =>
        match readField fuel rest with
        | some (k, x, rest) =>
          (readFields fuel (insertField k x []) rest).map fun r => (.obj r.1, r.2)
        | none => none
    else (readNumber ((c :: rest).takeWhile isNumberChar)).map fun x =>
      (x, (c :: rest).dropWhile isNumberChar)

def readItems : Nat → List Char → Option (List Json × List Char)
  | 0, _ => none
  | _, [] => none
  | fuel + 1, c :: rest =>
    if c = ']' then some ([], rest)
    else if c = ',' then
      match readValue fuel rest with
      | some (x, rest) => (readItems fuel rest).map fun r => (x :: r.1, r.2)
      | none => none
    else none

def readField : Nat → List Char → Option (String × Json × List Char)
  | 0, _ => none
  | fuel + 1, text =>
    match expect ['"'] text with
    | none => none
    | some rest =>
      match readString rest with
      | none => none
      | some (k, rest) =>
        match expect [':'] rest with
        | none => none
        | some rest => (readValue fuel rest).map fun r => (String.ofList k, r.1, r.2)

def readFields : Nat → List (String × Json) → List Char → Option (List (String × Json) × List Char)
  | 0, _, _ => none
  | _, _, [] => none
  | fuel + 1, acc, c :: rest =>
    if c = '}' then some (acc, rest)
    else if c = ',' then
      match readField fuel rest with
      | some (k, x, rest) => readFields fuel (insertField k x acc) rest
      | none => none
    else none

end

/-- The value of a whole compact text. -/
def read (text : String) : Option Json :=
  match readValue (text.toList.length + 1) text.toList with
  | some (j, []) => some j
  | _ => none

end Json
