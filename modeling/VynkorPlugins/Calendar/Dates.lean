import VynkorPlugins.Calendar.Model

/-!
# Dates and durations

The civil dates and the value forms of `ics.rs`. A year has few digits, so the dates are computed
without a bound, and the instants are cut to 64 bits in the end.
-/

namespace Calendar

def MS_PER_DAY : Int64 := 86400000

/-! ## Civil dates -/

def days_from_civil (y m d : Int) : Int :=
  let y := if m ≤ 2 then y - 1 else y
  let era := (if 0 ≤ y then y else y - 399).tdiv 400
  let yoe := y - era * 400
  let mp := if 2 < m then m - 3 else m + 9
  let doy := (153 * mp + 2).tdiv 5 + d - 1
  let doe := yoe * 365 + yoe.tdiv 4 - yoe.tdiv 100 + doy
  era * 146097 + doe - 719468

/-- The year, the month and the day. -/
def civil_from_days (z : Int) : Int × Int × Int :=
  let z := z + 719468
  let era := (if 0 ≤ z then z else z - 146096).tdiv 146097
  let doe := z - era * 146097
  let yoe := (doe - doe.tdiv 1460 + doe.tdiv 36524 - doe.tdiv 146096).tdiv 365
  let y := yoe + era * 400
  let doy := doe - (365 * yoe + yoe.tdiv 4 - yoe.tdiv 100)
  let mp := (5 * doy + 2).tdiv 153
  let d := doy - (153 * mp + 2).tdiv 5 + 1
  let m := if mp < 10 then mp + 3 else mp - 9
  (if m ≤ 2 then y + 1 else y, m, d)

/-- The days of the week from Monday on. -/
def weekday_mon0 (days : Int64) : Nat :=
  ((days + 3) % 7 + 7).toInt.toNat % 7

def is_leap (y : Int) : Bool :=
  (y.tmod 4 = 0 && y.tmod 100 ≠ 0) || y.tmod 400 = 0

def days_in_month (y m : Int) : Int :=
  if m = 1 ∨ m = 3 ∨ m = 5 ∨ m = 7 ∨ m = 8 ∨ m = 10 ∨ m = 12 then 31
  else if m = 4 ∨ m = 6 ∨ m = 9 ∨ m = 11 then 30
  else if m = 2 then if is_leap y then 29 else 28
  else 30

/-! ## Value forms -/

/-- The instant of a date and a time of the day. -/
def instant (y m d hour minute second : Int) : Int64 :=
  Int64.ofInt (days_from_civil y m d * 86400000 + hour * 3600000 + minute * 60000 + second * 1000)

/-- Some of the digits, as a number. -/
def num (digits : List Char) (start len : Nat) : Int :=
  Rust.digitsNat ((digits.drop start).take len)

/-- A part of the time, as far as there are digits for it. -/
def timePart (digits : List Char) (start : Nat) : Int :=
  if start + 2 ≤ digits.length then num digits start 2 else 0

/-- The instant, and whether it is a date only. -/
def parse_dt (value : List Char) : Except String (Int64 × Bool) :=
  let shown := Rust.debug (String.ofList value)
  let digits := value.filter Char.isDigit
  if digits.length < 8 then .error ("unparseable date value: " ++ shown)
  else
    let year := num digits 0 4
    let month := num digits 4 2
    let day := num digits 6 2
    if month < 1 ∨ 12 < month ∨ day < 1 ∨ days_in_month year month < day then
      .error ("date out of range: " ++ shown)
    else if 'T' ∉ value then .ok (instant year month day 0 0 0, true)
    else
      let hour := timePart digits 8
      let minute := timePart digits 10
      let second := timePart digits 12
      if 23 < hour ∨ 59 < minute ∨ 60 < second then .error ("time out of range: " ++ shown)
      else .ok (instant year month day hour minute second, false)

/-- A number with zeros in front of it. -/
def padNat (width n : Nat) : List Char :=
  let digits := (Nat.toDigits 10 n)
  List.replicate (width - digits.length) '0' ++ digits

/-- `{n:0width}` -/
def pad (width : Nat) (n : Int) : List Char :=
  if n < 0 then '-' :: padNat (width - 1) n.natAbs else padNat width n.natAbs

def fmt_dt (ms : Int64) (all_day : Bool) : List Char :=
  let days := ms.toInt / 86400000
  let rem := ms.toInt % 86400000
  let (y, mo, d) := civil_from_days days
  let date := pad 4 y ++ pad 2 mo ++ pad 2 d
  if all_day then date
  else
    let h := rem / 3600000
    let mi := rem % 3600000 / 60000
    let s := rem % 60000 / 1000
    date ++ 'T' :: pad 2 h ++ pad 2 mi ++ pad 2 s ++ ['Z']

/-! ## Durations -/

/-- What a duration has come to, and the digits in front of the next unit. -/
structure Duration where
  days : Int64
  hours : Int64
  minutes : Int64
  seconds : Int64
  number : List Char
  in_time : Bool

namespace Duration

def zero : Duration where
  days := 0
  hours := 0
  minutes := 0
  seconds := 0
  number := []
  in_time := false

/-- A unit after its number. -/
def unit (s : Duration) (n : Int64) : Char → Option Duration
  | 'D' => if s.in_time then none else some { s with days := n, number := [] }
  | 'T' => if s.in_time then none else some { s with in_time := true, number := [] }
  | 'H' => if s.in_time then some { s with hours := n, number := [] } else none
  | 'M' => if s.in_time then some { s with minutes := n, number := [] } else none
  | 'S' => if s.in_time then some { s with seconds := n, number := [] } else none
  | 'W' => if s.in_time then none else some { s with days := n * 7, number := [] }
  | _ => none

def feed (s : Duration) (ch : Char) : Option Duration :=
  if ch.isDigit then some { s with number := s.number ++ [ch] }
  else if s.number = [] then s.unit 0 ch
  else (Rust.parseI64 s.number).bind fun n => s.unit n ch

def ms (s : Duration) : Int64 :=
  s.days * MS_PER_DAY + s.hours * 3600000 + s.minutes * 60000 + s.seconds * 1000

end Duration

/-- Nothing, where the value is no duration. -/
def parse_duration (value : List Char) : Option Int64 :=
  let (sign, rest) : Int64 × List Char := match value with
    | '-' :: rest => (-1, rest)
    | '+' :: rest => (1, rest)
    | rest => (1, rest)
  match rest with
  | 'P' :: rest => (rest.foldlM Duration.feed .zero).map fun s => sign * s.ms
  | _ => none

def fmt_duration_before (ms : Int64) : String :=
  if ms % 3600000 = 0 then "-PT" ++ toString (ms / 3600000) ++ "H"
  else if ms % 60000 = 0 then "-PT" ++ toString (ms / 60000) ++ "M"
  else "-PT" ++ toString (ms / 1000) ++ "S"

end Calendar
