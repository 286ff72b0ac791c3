import VynkorPlugins.Base.Rust
import VynkorPlugins.Base.Text
import VynkorPlugins.Calendar.Dates

/-!
# iCalendar

The subset of iCalendar that is imported and exported (`ics.rs`). A text is a list of characters.
-/

namespace Calendar

def IMPORT_HORIZON_DAYS : Int64 := 90
def MAX_IMPORT_DOCS : Nat := 500

structure ParsedEvent where
  title : String
  description : String
  start_ms : Int64
  end_ms : Option Int64
  all_day : Bool
  remind_before_ms : Option Int64
  uid : String
  rrule : Option String
deriving DecidableEq

/-! ## Texts -/

def escapeChar : Char → List Char
  | '\\' => ['\\', '\\']
  | ';' => ['\\', ';']
  | ',' => ['\\', ',']
  | '\n' | '\r' => ['\\', 'n']
  | ch => [ch]

def escape_text (text : List Char) : List Char := text.flatMap escapeChar

def unescape_text : List Char → List Char
  | [] => []
  | ['\\'] => ['\\']
  | '\\' :: ch :: rest => (if ch = 'n' ∨ ch = 'N' then '\n' else ch) :: unescape_text rest
  | ch :: rest => ch :: unescape_text rest

/-! ## Lines -/

/-- A line is put to the ones before it. The first character of a continuation is its mark. -/
def unfoldLine (lines : List (List Char)) (raw : List Char) : List (List Char) :=
  match raw, lines.getLast? with
  | ' ' :: rest, some last | '\t' :: rest, some last => lines.dropLast ++ [last ++ rest]
  | _, _ => lines ++ [raw]

def unfold_lines (input : List Char) : List (List Char) :=
  (Rust.lines input).foldl unfoldLine []

/-- The first colon outside of quotes splits a line. -/
def splitColon : Bool → List Char → Option (List Char × List Char)
  | _, [] => none
  | in_quotes, ch :: rest =>
    if ch = ':' ∧ in_quotes = false then some ([], rest)
    else (splitColon (in_quotes != (ch == '"')) rest).map fun p => (ch :: p.1, p.2)

/-- The name of a property, without its parameters, and its value. -/
def split_property (line : List Char) : Option (String × List Char) :=
  (splitColon false line).map fun p =>
    let name := Rust.trim (String.ofList (p.1.takeWhile (· ≠ ';')))
    (String.ofList (Rust.toAsciiUppercase name.toList), p.2)

/-! ## Recurrences -/

/-- `split_once('=')` -/
def splitOnce (part : List Char) : Option (List Char × List Char) :=
  match part.dropWhile (· ≠ '=') with
  | _ :: value => some (part.takeWhile (· ≠ '='), value)
  | [] => none

def trimChars (text : List Char) : List Char := (Rust.trim (String.ofList text)).toList

def byday : List (List Char × Nat) :=
  [(['M', 'O'], 0), (['T', 'U'], 1), (['W', 'E'], 2), (['T', 'H'], 3), (['F', 'R'], 4),
   (['S', 'A'], 5), (['S', 'U'], 6)]

def parse_byday (value : List Char) : List Nat :=
  (value.splitOnP (· = ',')).filterMap fun token =>
    (byday.find? fun day => day.1.isSuffixOf (trimChars token)).map Prod.snd

structure Rule where
  freq : List Char
  interval : Int64
  until_ms : Option Int64
  byday : List Nat

def Rule.part (rule : Rule) (part : List Char) : Rule :=
  match splitOnce part with
  | none => rule
  | some (key, value) =>
    match String.ofList (Rust.toAsciiUppercase (trimChars key)) with
    | "FREQ" => { rule with freq := Rust.toAsciiUppercase (trimChars value) }
    | "INTERVAL" => { rule with interval := max ((Rust.parseI64 (trimChars value)).getD 1) 1 }
    | "UNTIL" =>
      { rule with until_ms := match parse_dt (trimChars value) with
          | .ok (ms, _) => some ms
          | .error _ => none }
    | "BYDAY" => { rule with byday := parse_byday value }
    | _ => rule

def Rule.parse (rrule : List Char) : Rule :=
  (rrule.splitOnP (· = ';')).foldl Rule.part
    { freq := [], interval := 1, until_ms := none, byday := [] }

/-- What an expansion may give. -/
structure Span where
  first_ms : Int64
  until_ms : Option Int64
  horizon_end_ms : Int64
  max_occurrences : Nat

/-- The occurrences so far, the latest one first, and how many may still follow. -/
structure Expanded where
  out : List Int64
  count : Option Int64

/-- An instant is taken or not; whether the expansion goes on. -/
def Span.push (x : Span) (ms : Int64) (s : Expanded) : Bool × Expanded :=
  if ms ≤ x.first_ms ∨ x.horizon_end_ms < ms then (true, s)
  else if x.until_ms.any (· < ms) then (false, s)
  else if s.count.any (· ≤ 0) then (false, s)
  else
    let s := { out := ms :: s.out, count := s.count.map (· - 1) }
    (s.out.length < x.max_occurrences, s)

def Span.time_of_day (x : Span) : Int64 := Int64.ofInt (x.first_ms.toInt % 86400000)

/-- The loop of the daily rules and of the weekly ones without days. There may be no end to it: the
    sums wrap. -/
def Span.steps (x : Span) (step : Int64) : Nat → Int64 → Expanded → Option Expanded
  | 0, _, _ => none
  | fuel + 1, cursor_days, s =>
    if x.horizon_end_ms < cursor_days * MS_PER_DAY then some s
    else
      match x.push (cursor_days * MS_PER_DAY + x.time_of_day) s with
      | (true, s) => x.steps step fuel (cursor_days + step) s
      | (false, s) => some s

/-- The days of one week. -/
def Span.week (x : Span) (days : List Nat) (week : Int64) : List Nat → Expanded → Bool × Expanded
  | [], s => (true, s)
  | offset :: offsets, s =>
    let day := week + Int64.ofNat offset
    if weekday_mon0 day ∉ days then x.week days week offsets s
    else
      match x.push (day * MS_PER_DAY + x.time_of_day) s with
      | (true, s) => x.week days week offsets s
      | (false, s) => (false, s)

def Span.weeks (x : Span) (days : List Nat) (step : Int64) : Nat → Int64 → Expanded → Option Expanded
  | 0, _, _ => none
  | fuel + 1, week, s =>
    if x.horizon_end_ms < week * MS_PER_DAY then some s
    else
      match x.week days week (List.range 7) s with
      | (true, s) => x.weeks days step fuel (week + step) s
      | (false, s) => some s

/-- The instant of a month after the first one. -/
def Span.month (x : Span) (interval index : Int64) : Int64 :=
  let (y0, m0, day_of_month) := civil_from_days (x.first_ms.toInt / 86400000)
  let total := (Int64.ofInt (m0 - 1) + index * interval).toInt
  let y := y0 + total / 12
  let m := total % 12 + 1
  let d := min day_of_month (days_in_month y m)
  Int64.ofInt (days_from_civil y m d) * MS_PER_DAY + x.time_of_day

/-- The months that are left of the 1200. -/
def Span.months (x : Span) (interval : Int64) : Nat → Expanded → Expanded
  | 0, s => s
  | left + 1, s =>
    let ms := x.month interval (Int64.ofNat (1200 - left))
    if x.horizon_end_ms < ms then s
    else
      match x.push ms s with
      | (true, s) => x.months interval left s
      | (false, s) => s

/-- The occurrences after the first one. Nothing comes back when an expansion takes more than `fuel`
    turns. -/
def expand_rrule (fuel : Nat) (first_ms : Int64) (rrule : List Char) (horizon_end_ms : Int64)
    (count_remaining : Option Int64) (max_occurrences : Nat) : Option (List Int64) :=
  let rule := Rule.parse rrule
  let x : Span := { first_ms, until_ms := rule.until_ms, horizon_end_ms, max_occurrences }
  let start : Expanded := { out := [], count := count_remaining }
  let cursor_days := Int64.ofInt (first_ms.toInt / 86400000)
  let expanded :=
    match String.ofList rule.freq with
    | "DAILY" => x.steps rule.interval fuel cursor_days start
    | "WEEKLY" =>
      if rule.byday = [] then x.steps (7 * rule.interval) fuel cursor_days start
      else
        x.weeks rule.byday (7 * rule.interval) fuel
          (cursor_days - Int64.ofNat (weekday_mon0 cursor_days)) start
    | "MONTHLY" => some (x.months rule.interval 1200 start)
    | _ => some start
  expanded.map fun s => s.out.reverse

/-- The starts of an event in a window. -/
def occurrences (fuel : Nat) (event : ParsedEvent) (window_start_ms window_end_ms : Int64) :
    Option (List Int64) :=
  if window_end_ms < event.start_ms then some []
  else
    match event.rrule with
    | none => some (if window_start_ms ≤ event.start_ms then [event.start_ms] else [])
    | some rrule =>
      let count_total := (rrule.toList.splitOnP (· = ';')).findSome? fun part =>
        match splitOnce part with
        | some (key, value) =>
          if Rust.toAsciiUppercase key = ['C', 'O', 'U', 'N', 'T'] then Rust.parseI64 value else none
        | none => none
      let count_remaining := count_total.map fun count => max (count - 1) 0
      let first :=
        if window_start_ms ≤ event.start_ms ∧ event.start_ms ≤ window_end_ms then [event.start_ms]
        else []
      (expand_rrule fuel event.start_ms rrule.toList window_end_ms count_remaining MAX_IMPORT_DOCS).map
        fun starts => (first ++ starts).filter fun ms => window_start_ms ≤ ms

/-! ## Parsing -/

abbrev Property := String × String

structure RawEvent where
  props : List Property
  alarms : List (List Property)

structure Collect where
  events : List RawEvent
  current : Option RawEvent
  in_alarm : Bool
  alarm : List Property

def Collect.start : Collect where
  events := []
  current := none
  in_alarm := false
  alarm := []

def isComponent (value : List Char) (component : String) : Bool :=
  Rust.toAsciiUppercase value = component.toList

/-- One property of the calendar. -/
def Collect.property (s : Collect) (name : String) (value : List Char) : Collect :=
  if name = "BEGIN" ∧ isComponent value "VEVENT" then
    { s with current := some { props := [], alarms := [] } }
  else if name = "BEGIN" ∧ isComponent value "VALARM" ∧ s.current.isSome then
    { s with in_alarm := true, alarm := [] }
  else if name = "END" ∧ isComponent value "VALARM" then
    let current := s.current.map fun event =>
      if s.in_alarm then { event with alarms := event.alarms ++ [s.alarm] } else event
    { s with current, in_alarm := false }
  else if name = "END" ∧ isComponent value "VEVENT" then
    { s with events := s.events ++ s.current.toList, current := none }
  else
    match s.current with
    | none => s
    | some event =>
      let prop := (name, String.ofList (unescape_text value))
      if s.in_alarm then { s with alarm := s.alarm ++ [prop] }
      else { s with current := some { event with props := event.props ++ [prop] } }

def Collect.line (s : Collect) (line : List Char) : Collect :=
  match split_property line with
  | some (name, value) => s.property name value
  | none => s

def collect_events (lines : List (List Char)) : List RawEvent :=
  (lines.foldl Collect.line .start).events

def getProp (props : List Property) (prop : String) : Option String :=
  (props.find? fun p => p.1 = prop).map Prod.snd

/-- The lead of an alarm that comes before the start. -/
def alarmLead (alarm : List Property) : Option Int64 :=
  (getProp alarm "TRIGGER").bind fun trigger =>
    (parse_duration trigger.toList).bind fun ms =>
      if ms < 0 then some (min (-ms) MAX_REMIND_BEFORE_MS) else none

def alarm_remind_before (alarms : List (List Property)) : Option Int64 :=
  (alarms.filterMap alarmLead).min?

/-- An event without a usable start is skipped. -/
def RawEvent.parse (raw : RawEvent) : Option ParsedEvent :=
  match (getProp raw.props "DTSTART").map fun value => parse_dt value.toList with
  | none | some (.error _) => none
  | some (.ok (start_ms, all_day)) =>
    let end_ms := match (getProp raw.props "DTEND").map fun value => parse_dt value.toList with
      | some (.ok (ms, _)) => if start_ms ≤ ms then some ms else none
      | none | some (.error _) => none
    let description := (getProp raw.props "DESCRIPTION").getD ""
    let location := (getProp raw.props "LOCATION").getD ""
    some
      { title := (getProp raw.props "SUMMARY").getD "(untitled)"
        description :=
          if location = "" then description else "Location: " ++ location ++ "\n" ++ description
        start_ms, end_ms, all_day
        remind_before_ms := alarm_remind_before raw.alarms
        uid := (getProp raw.props "UID").getD ""
        rrule := getProp raw.props "RRULE" }

def parse_ics (input : List Char) : Except String (List ParsedEvent) :=
  let lines := unfold_lines input
  if lines.any fun line => (split_property line).any fun p => p.1 = "BEGIN" then
    .ok ((collect_events lines).filterMap RawEvent.parse)
  else .error "no VCALENDAR/VEVENT components found"

/-! ## Generation -/

def FOLD_AT : Nat := 72

/-- The bytes of a character, as far as a cut looks at them: the character itself at its first byte. -/
def charBytes (ch : Char) : List (Option Char) :=
  some ch :: List.replicate (ch.utf8Size - 1) none

def lineBytes (line : List Char) : List (Option Char) := line.flatMap charBytes

/-- The bytes that begin characters, between two positions. -/
def slice (bytes : List (Option Char)) (first last : Nat) : List Char :=
  ((bytes.drop first).take (last - first)).filterMap id

/-- A character begins at the position, or the line ends. -/
def isBoundary (bytes : List (Option Char)) (pos : Nat) : Bool :=
  pos = bytes.length || bytes[pos]?.any Option.isSome

/-- A cut moves in front of the blanks. -/
def cut (bytes : List (Option Char)) : Nat → Nat
  | 0 => 0
  | pos + 1 =>
    if 0 < pos ∧ (bytes[pos + 1]? = some (some ' ') ∨ bytes[pos + 1]? = some (some '\t')) then
      cut bytes pos
    else pos + 1

/-- The rest of a line from a cut on. Nothing comes back where a cut falls into a character (the slice
    panics), where it falls behind the one before it (likewise), and where it is the one before it
    (the loop never ends). Each turn moves the cut, so `left` counts the bytes down. -/
def foldRest (bytes : List (Option Char)) : Nat → Nat → Option (List Char)
  | 0, _ => none
  | left + 1, rest_start =>
    if FOLD_AT - 1 < bytes.length - rest_start then
      let seg_end := cut bytes (rest_start + FOLD_AT - 1)
      if rest_start < seg_end ∧ isBoundary bytes seg_end then
        (foldRest bytes left seg_end).map fun rest =>
          ' ' :: slice bytes rest_start seg_end ++ '\r' :: '\n' :: rest
      else none
    else some (' ' :: slice bytes rest_start bytes.length ++ ['\r', '\n'])

def fold_line (line : List Char) : Option (List Char) :=
  let bytes := lineBytes line
  if bytes.length ≤ FOLD_AT then some (line ++ ['\r', '\n'])
  else
    let rest_start := cut bytes (min FOLD_AT (bytes.length - 1))
    if isBoundary bytes rest_start then
      (foldRest bytes bytes.length rest_start).map fun rest =>
        slice bytes 0 rest_start ++ '\r' :: '\n' :: rest
    else none

def prop (name : String) (value : List Char) : Option (List Char) :=
  fold_line (name.toList ++ ':' :: value)

/-- A line that is not folded. -/
def plainLine (line : String) : List Char := line.toList ++ ['\r', '\n']

def docUid (doc : EventDoc) : String :=
  doc.ics_uid.getD ("cal-" ++ doc.id ++ "@vynkor.calendar")

/-- The lines of the times of an event. -/
def timeLines (doc : EventDoc) : Option (List Char) :=
  if doc.all_day then
    let dtstart := "DTSTART;VALUE=DATE:".toList ++ fmt_dt doc.start_ms true ++ ['\r', '\n']
    match doc.end_ms with
    | some end_ms => some (dtstart ++ "DTEND;VALUE=DATE:".toList ++ fmt_dt end_ms true ++ ['\r', '\n'])
    | none => some dtstart
  else do
    let dtstart ← prop "DTSTART" (fmt_dt doc.start_ms false)
    match doc.end_ms with
    | some end_ms => return dtstart ++ (← prop "DTEND" (fmt_dt end_ms false))
    | none => return dtstart

def alarmLines (doc : EventDoc) : Option (List Char) :=
  match doc.remind_before_ms with
  | none => some []
  | some remind => do
    let trigger ← prop "TRIGGER" (fmt_duration_before remind).toList
    return plainLine "BEGIN:VALARM" ++ plainLine "ACTION:DISPLAY" ++ trigger ++ plainLine "END:VALARM"

def eventLines (doc : EventDoc) : Option (List Char) := do
  let uid ← prop "UID" (docUid doc).toList
  let summary ← prop "SUMMARY" (escape_text doc.title.toList)
  let description ←
    if doc.description = "" then some [] else prop "DESCRIPTION" (escape_text doc.description.toList)
  let times ← timeLines doc
  let alarm ← alarmLines doc
  let stamp ← prop "DTSTAMP" (fmt_dt (max doc.updated_at_ms 0) false)
  return plainLine "BEGIN:VEVENT" ++ uid ++ summary ++ description ++ times ++ alarm ++ stamp ++
    plainLine "END:VEVENT"

def calendarHead : List Char :=
  plainLine "BEGIN:VCALENDAR" ++ plainLine "VERSION:2.0" ++
    plainLine "PRODID:-//vynkor//calendar//EN" ++ plainLine "CALSCALE:GREGORIAN"

/-- Nothing comes back where a line cannot be folded. -/
def generate_ics (docs : List EventDoc) : Option (List Char) :=
  (docs.mapM eventLines).map fun events => calendarHead ++ events.flatten ++ plainLine "END:VCALENDAR"

end Calendar

/-!
## Where a line can be folded

A cut goes as far as a physical line may, and back over the blanks there. It is a cut if a character
begins there, behind the cut before it.
-/

namespace Calendar

def BlankAt (bytes : List (Option Char)) (pos : Nat) : Prop :=
  bytes[pos]? = some (some ' ') ∨ bytes[pos]? = some (some '\t')

/-- A position is the last one up to another that holds no blank, or the first one but one. -/
structure CutAt (bytes : List (Option Char)) (pos q : Nat) : Prop where
  le : q ≤ pos
  first : 0 < pos → 0 < q
  here : 1 < q → ¬ BlankAt bytes q
  back : ∀ i, q < i → i ≤ pos → BlankAt bytes i

/-- The rest of a line from a cut on has its cuts. -/
inductive FoldsFrom (bytes : List (Option Char)) : Nat → Prop
  | rest {p : Nat} (hshort : bytes.length ≤ p + 71) : FoldsFrom bytes p
  | next {p q : Nat} (hlong : p + 71 < bytes.length) (hcut : CutAt bytes (p + 71) q) (hlt : p < q)
      (hchar : isBoundary bytes q = true) (hrest : FoldsFrom bytes q) : FoldsFrom bytes p

/-- A line of at most 72 bytes, or one that has its cuts. -/
def Foldable (line : List Char) : Prop :=
  (lineBytes line).length ≤ 72 ∨
    ∃ q, CutAt (lineBytes line) 72 q ∧ isBoundary (lineBytes line) q = true ∧
      FoldsFrom (lineBytes line) q

/-- The physical lines of a line: the ones after the first begin with a mark. -/
def IsFold (line : List Char) (raws : List (List Char)) : Prop :=
  ∃ (first : List Char) (segs : List (List Char)),
    raws = first :: segs.map (List.cons ' ') ∧ first ++ segs.flatten = line

end Calendar

/-!
## Recurrences with checked integers

`expand_rrule` as a build with overflow checks computes it. The integers have no bound here, and each
result of an operation has to fit. What is left unchecked is small for every input: the parts of the
first date, a month, a day of a month and a day of an era.
-/

namespace Calendar

open Checked

def weekday_mon0_checked (days : Int) : Except Stop Nat := do
  let shifted ← fit (days + 3)
  return (shifted.tmod 7 + 7).toNat % 7

def days_from_civil_checked (y m d : Int) : Except Stop Int := do
  let y ← fit (if m ≤ 2 then y - 1 else y)
  let dividend ← fit (if 0 ≤ y then y else y - 399)
  let era := dividend.tdiv 400
  let years ← fit (era * 400)
  let yoe ← fit (y - years)
  let mp := if 2 < m then m - 3 else m + 9
  let doy := (153 * mp + 2).tdiv 5 + d - 1
  let doe := yoe * 365 + yoe.tdiv 4 - yoe.tdiv 100 + doy
  let days ← fit (era * 146097)
  let days ← fit (days + doe)
  fit (days - 719468)

def civil_from_days_checked (z : Int) : Except Stop (Int × Int × Int) := do
  let z ← fit (z + 719468)
  let dividend ← fit (if 0 ≤ z then z else z - 146096)
  let era := dividend.tdiv 146097
  let start ← fit (era * 146097)
  let doe ← fit (z - start)
  let yoe := (doe - doe.tdiv 1460 + doe.tdiv 36524 - doe.tdiv 146096).tdiv 365
  let years ← fit (era * 400)
  let y ← fit (yoe + years)
  let doy := doe - (365 * yoe + yoe.tdiv 4 - yoe.tdiv 100)
  let mp := (5 * doy + 2).tdiv 153
  let d := doy - (153 * mp + 2).tdiv 5 + 1
  let m := if mp < 10 then mp + 3 else mp - 9
  let y ← fit (if m ≤ 2 then y + 1 else y)
  return (y, m, d)

/-- The instant of a day, at the time of the first one. -/
def Span.instant_checked (x : Span) (days : Int) : Except Stop Int := do
  let start ← fit (days * 86400000)
  fit (start + x.first_ms.toInt % 86400000)

/-- The loop of the daily rules and of the weekly ones without days. -/
def Span.steps_checked (x : Span) (step : Except Stop Int) :
    Nat → Int → Expanded → Except Stop Expanded
  | 0, _, _ => .error .fuel
  | fuel + 1, cursor_days, s => do
    let start ← fit (cursor_days * 86400000)
    if x.horizon_end_ms.toInt < start then return s
    else
      let ms ← x.instant_checked cursor_days
      match x.push (Int64.ofInt ms) s with
      | (true, s) =>
        let days ← step
        let cursor_days ← fit (cursor_days + days)
        x.steps_checked step fuel cursor_days s
      | (false, s) => return s

/-- The days of one week. -/
def Span.week_checked (x : Span) (days : List Nat) (week : Int) :
    List Nat → Expanded → Except Stop (Bool × Expanded)
  | [], s => return (true, s)
  | offset :: offsets, s => do
    let day ← fit (week + offset)
    let weekday ← weekday_mon0_checked day
    if weekday ∉ days then x.week_checked days week offsets s
    else
      let ms ← x.instant_checked day
      match x.push (Int64.ofInt ms) s with
      | (true, s) => x.week_checked days week offsets s
      | (false, s) => return (false, s)

def Span.weeks_checked (x : Span) (days : List Nat) (step : Except Stop Int) :
    Nat → Int → Expanded → Except Stop Expanded
  | 0, _, _ => .error .fuel
  | fuel + 1, week, s => do
    let start ← fit (week * 86400000)
    if x.horizon_end_ms.toInt < start then return s
    else
      let (going, s) ← x.week_checked days week (List.range 7) s
      if going then
        let days' ← step
        let week ← fit (week + days')
        x.weeks_checked days step fuel week s
      else return s

/-- The instant of a month after the first one. -/
def Span.month_checked (x : Span) (interval index : Int) : Except Stop Int := do
  let (y0, m0, day_of_month) := civil_from_days (x.first_ms.toInt / 86400000)
  let months ← fit (index * interval)
  let total ← fit (m0 - 1 + months)
  let y ← fit (y0 + total / 12)
  let m := total % 12 + 1
  let d := min day_of_month (days_in_month y m)
  let days ← days_from_civil_checked y m d
  x.instant_checked days

/-- The months that are left of the 1200. The one after them is computed as well. -/
def Span.months_checked (x : Span) (interval : Int) : Nat → Expanded → Except Stop Expanded
  | 0, s => do
    let _ ← x.month_checked interval 1201
    return s
  | left + 1, s => do
    let ms ← x.month_checked interval (1200 - left)
    if x.horizon_end_ms.toInt < ms then return s
    else
      match x.push (Int64.ofInt ms) s with
      | (true, s) => x.months_checked interval left s
      | (false, s) => return s

/-- The span of a rule. -/
def Rule.span (rule : Rule) (first_ms horizon_end_ms : Int64) (max_occurrences : Nat) : Span :=
  { first_ms, until_ms := rule.until_ms, horizon_end_ms, max_occurrences }

/-- The loop of the frequency of a rule. -/
def Rule.expand_checked (rule : Rule) (x : Span) (fuel : Nat) (start : Expanded) :
    Except Stop Expanded :=
  let interval := rule.interval.toInt
  let cursor_days := x.first_ms.toInt / 86400000
  match String.ofList rule.freq with
  | "DAILY" => x.steps_checked (.ok interval) fuel cursor_days start
  | "WEEKLY" =>
    if rule.byday = [] then x.steps_checked (fit (7 * interval)) fuel cursor_days start
    else do
      let weekday ← weekday_mon0_checked cursor_days
      let week_start ← fit (cursor_days - weekday)
      x.weeks_checked rule.byday (fit (7 * interval)) fuel week_start start
  | "MONTHLY" => x.months_checked interval 1200 start
  | _ => .ok start

def expand_rrule_checked (fuel : Nat) (first_ms : Int64) (rrule : List Char) (horizon_end_ms : Int64)
    (count_remaining : Option Int64) (max_occurrences : Nat) : Except Stop (List Int64) :=
  let rule := Rule.parse rrule
  let x := rule.span first_ms horizon_end_ms max_occurrences
  (rule.expand_checked x fuel { out := [], count := count_remaining }).map fun s => s.out.reverse

end Calendar
