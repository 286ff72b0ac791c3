import VynkorPlugins.Base.Text

/-!
# Server-sent events

The framing of streamed responses (`sse.rs`): chunks of bytes are buffered, and the data of each event is
surfaced when a blank line ends it.
-/

namespace Ai.Sse

abbrev Bytes := List UInt8

/-- Cap on one buffered, not-yet-terminated event. -/
def MAX_PENDING_BYTES : Nat := 1024 * 1024

def CR : UInt8 := 13

def LF : UInt8 := 10

def separators : List Bytes := [[CR, LF, CR, LF], [LF, LF], [CR, CR]]

/-- Index of the first blank-line terminator and its length. -/
def find_event_end : Bytes → Option (Nat × Nat)
  | [] => none
  | b :: buf =>
    match separators.find? fun sep => sep.isPrefixOf (b :: buf) with
    | some sep => some (0, sep.length)
    | none => (find_event_end buf).map fun found => (found.1 + 1, found.2)

/-- What a line says, if it is one of data. -/
def data_line (line : List Char) : Option (List Char) :=
  ("data:".toList.isPrefixOf? line).map fun rest => ([' '].isPrefixOf? rest).getD rest

/-- The data of the lines that have any, with a newline between any two. -/
def joined (data : List (List Char)) : Option String :=
  if data = [] then none else some (String.ofList (['\n'].intercalate data))

/-- What is surfaced of an event. -/
def event_data (raw : Bytes) : Option String :=
  joined ((Rust.lines (Rust.from_utf8_lossy raw)).filterMap data_line)

theorem found_le {buf : Bytes} {found : Nat × Nat} (h : find_event_end buf = some found) :
    found.1 + found.2 ≤ buf.length ∧ 0 < found.2 := by
  induction buf generalizing found with
  | nil => cases h
  | cons b buf ih =>
    unfold find_event_end at h
    split at h
    · rename_i sep hsep
      cases h
      have hmem := List.mem_of_find?_eq_some hsep
      have hpre := List.find?_some hsep
      have hlen := (List.isPrefixOf_iff_prefix.mp hpre).length_le
      have hpos : 0 < sep.length := by
        simp only [separators, List.mem_cons, List.not_mem_nil, or_false] at hmem
        rcases hmem with rfl | rfl | rfl <;> simp
      exact ⟨by omega, hpos⟩
    · obtain ⟨rest, hrest, rfl⟩ := Option.map_eq_some_iff.mp h
      obtain ⟨hle, hpos⟩ := ih hrest
      rw [List.length_cons]
      exact ⟨by omega, hpos⟩

/-- The events that the buffer completes, and what stays in it. -/
def drain (buf : Bytes) : List String × Bytes :=
  match _h : find_event_end buf with
  | none => ([], buf)
  | some (stop, sep_len) =>
    let later := drain (buf.drop (stop + sep_len))
    ((event_data (buf.take stop)).toList ++ later.1, later.2)
termination_by buf.length
decreasing_by
  have hfound := found_le _h
  rw [List.length_drop]
  omega

/-- Feed one body chunk. -/
def feed (buf chunk : Bytes) : Except String (List String) × Bytes :=
  let drained := drain (buf ++ chunk)
  if MAX_PENDING_BYTES < drained.2.length then
    (.error "stream event exceeds 1 MiB without a terminator", drained.2)
  else (.ok drained.1, drained.2)

/-- The results of all chunks together, where none is an error. -/
def feeds (buf : Bytes) : List Bytes → Except String (List String)
  | [] => .ok []
  | chunk :: chunks => do
    let events ← (feed buf chunk).1
    let later ← feeds (feed buf chunk).2 chunks
    return events ++ later

end Ai.Sse
