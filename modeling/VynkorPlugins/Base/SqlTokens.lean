/-!
# The tokens of SQL

How SQLite's tokenizer splits the bytes of a text. A token is as long as it can be.
-/

namespace SqlTokens

abbrev Bytes := List UInt8

inductive Kind where
  | space
  | comment
  | semicolon
  /-- A keyword or an identifier without quotes. -/
  | word
  /-- A text or an identifier in quotes or brackets. -/
  | quoted
  | blob
  /-- A number, with the letters after it that make it an illegal token. -/
  | number
  /-- The parameter `?`, with the number after it. -/
  | numbered
  /-- A parameter with a name. -/
  | named
  /-- An operator, another sign of punctuation or a byte that begins no token. -/
  | operator
deriving DecidableEq

structure Token where
  kind : Kind
  bytes : Bytes
deriving DecidableEq

/-! ## Bytes -/

def byte (c : Char) : UInt8 :=
  c.toUInt8

def isSpace (b : UInt8) : Bool :=
  9 ≤ b ∧ b ≤ 13 ∨ b = 32

def isDigit (b : UInt8) : Bool :=
  byte '0' ≤ b ∧ b ≤ byte '9'

def isAlpha (b : UInt8) : Bool :=
  byte 'a' ≤ b ∧ b ≤ byte 'z' ∨ byte 'A' ≤ b ∧ b ≤ byte 'Z'

/-- A byte of a word. -/
def isIdChar (b : UInt8) : Bool :=
  isAlpha b || isDigit b || b = byte '_' || b = byte '$' || 128 ≤ b

/-- A byte of a name without a dollar sign. -/
def isWordByte (b : UInt8) : Bool :=
  isAlpha b || isDigit b || b = byte '_'

/-- The quotes that a text or an identifier may have. -/
def isQuote (b : UInt8) : Bool :=
  b = byte '\'' || b = byte '"'

/-- The case of an ASCII letter. -/
def lower (b : UInt8) : UInt8 :=
  if byte 'A' ≤ b ∧ b ≤ byte 'Z' then b + 32 else b

/-! ## Parts of tokens, and what is left behind them -/

/-- The bytes up to one, with that one. -/
def upTo (q : UInt8) (z : Bytes) : Bytes × Bytes :=
  match z.span (· ≠ q) with
  | (s, c :: rest) => (s ++ [c], rest)
  | (s, []) => (s, [])

/-- The bytes of a quoted text after its first quote. A doubled quote does not end it. -/
def quoted (q : UInt8) : Bytes → Bytes × Bytes
  | [] => ([], [])
  | [c] => ([c], [])
  | c :: d :: z =>
    if c ≠ q then (c :: (quoted q (d :: z)).1, (quoted q (d :: z)).2)
    else if d = q then (c :: d :: (quoted q z).1, (quoted q z).2)
    else ([c], d :: z)

/-- The bytes of a comment after its first two. -/
def comment : Bytes → Bytes × Bytes
  | [] => ([], [])
  | [c] => ([c], [])
  | c :: d :: z =>
    if c = byte '*' ∧ d = byte '/' then ([c, d], z)
    else (c :: (comment (d :: z)).1, (comment (d :: z)).2)

/-- Digits, between which an underscore may stand. -/
def digits (z : Bytes) : Bytes × Bytes :=
  z.span fun b => isDigit b || b = byte '_'

def fraction : Bytes → Bytes × Bytes
  | [] => ([], [])
  | c :: z => if c = byte '.' then (c :: (digits z).1, (digits z).2) else ([], c :: z)

def exponent : Bytes → Bytes × Bytes
  | c :: d :: z =>
    if lower c = byte 'e' ∧ isDigit d then (c :: (digits (d :: z)).1, (digits (d :: z)).2)
    else if lower c = byte 'e' ∧ (d = byte '+' ∨ d = byte '-') ∧ (z.head?.any isDigit) then
      (c :: d :: (digits z).1, (digits z).2)
    else ([], c :: d :: z)
  | z => ([], z)

/-- A number. What would be a word behind it belongs to it. -/
def number (z : Bytes) : Bytes × Bytes :=
  let whole := digits z
  let part := fraction whole.2
  let power := exponent part.2
  let letters := power.2.span isIdChar
  (whole.1 ++ part.1 ++ power.1 ++ letters.1, letters.2)

/-- What stands in brackets, without white space. -/
def bracketed (z : Bytes) : Bytes × Bytes :=
  match z.span fun b => !isSpace b && b ≠ byte ')' with
  | (s, c :: rest) => if c = byte ')' then (s ++ [c], rest) else (s, c :: rest)
  | (s, []) => (s, [])

/-- The name of a parameter, which may have a suffix in brackets. -/
def name : Bool → Bytes → Bytes × Bytes
  | _, [] => ([], [])
  | begun, c :: z =>
    if isIdChar c then (c :: (name true z).1, (name true z).2)
    else if c = byte '(' ∧ begun then (c :: (bracketed z).1, (bracketed z).2)
    else
      match z with
      | d :: z' =>
        if c = byte ':' ∧ d = byte ':' then (c :: d :: (name begun z').1, (name begun z').2)
        else ([], c :: d :: z')
      | [] => ([], [c])

/-- The operators of more than one byte. -/
def operators : List Bytes :=
  ["->>", "->", "==", "<=", "<>", "<<", ">=", ">>", "!=", "||"].map fun s => s.toList.map byte

def operator (c : UInt8) (z : Bytes) : Bytes × Bytes :=
  match operators.find? (·.isPrefixOf (c :: z)) with
  | some op => (op, (c :: z).drop op.length)
  | none => ([c], z)

/-! ## Tokens -/

/-- A token of a kind that goes on after its first bytes. -/
def token (kind : Kind) (begin : Bytes) (s : Bytes × Bytes) : Token × Bytes :=
  ({ kind, bytes := begin ++ s.1 }, s.2)

/-- The first token of a text that begins with a byte. -/
def next (c : UInt8) (z : Bytes) : Token × Bytes :=
  let follows (d : Char) : Bool := z.head? = some (byte d)
  if c ∈ [9, 10, 12, 13, 32] then token .space [c] (z.span isSpace)
  else if c = 0xef ∧ [0xbb, 0xbf].isPrefixOf z then token .space (c :: z.take 2) ([], z.drop 2)
  else if c = byte '-' ∧ follows '-' then token .comment [c] (z.span (· ≠ byte '\n'))
  else if c = byte '/' ∧ follows '*' ∧ 1 < z.length then token .comment (c :: z.take 1) (comment (z.drop 1))
  else if c = byte ';' then token .semicolon [c] ([], z)
  else if c ∈ [byte '\'', byte '"', byte (Char.ofNat 96)] then token .quoted [c] (quoted c z)
  else if c = byte '[' then token .quoted [c] (upTo (byte ']') z)
  else if lower c = byte 'x' ∧ follows '\'' then token .blob (c :: z.take 1) (upTo (byte '\'') (z.drop 1))
  else if isDigit c ∨ c = byte '.' ∧ (z.head?.any isDigit) then token .number [] (number (c :: z))
  else if c = byte '?' then token .numbered [c] (z.span isDigit)
  else if c ∈ [byte '$', byte '@', byte ':', byte '#'] then token .named [c] (name false z)
  else if isIdChar c then token .word [c] (z.span isIdChar)
  else token .operator [] (operator c z)

/-- The tokens of a text, as many as there is fuel for. -/
def scan : Nat → Bytes → List Token
  | fuel + 1, c :: z => (next c z).1 :: scan fuel (next c z).2
  | _, _ => []

/-- The tokens of a text, which ends at a byte of zero. -/
def tokens (sql : Bytes) : List Token :=
  let text := sql.takeWhile (· ≠ 0)
  scan text.length text

/-- The tokens of each statement. -/
def statements (sql : Bytes) : List (List Token) :=
  (tokens sql).splitOnP fun t => t.kind = .semicolon

/-- The word is a keyword, in any case of its letters. -/
def Token.isKeyword (keyword : String) (t : Token) : Bool :=
  t.kind = .word && t.bytes.map lower = keyword.toList.map byte

end SqlTokens
