import VynkorPlugins.Base.Proofs.JsonProofs

/-!
# Reading JSON payloads

What the plugins rely on of `serde_json`, as a parameter of their models: the readers and the texts
of their errors are not described further than by what they make of a written value.
-/

/-- The readers of JSON payloads. -/
structure Serde where
  /-- `from_slice` into a `Value`. -/
  fromSlice : ByteArray → Except String Json
  /-- `from_slice` into a derived structure with the named fields: the value of each one, where the
      text has it. -/
  readStruct : List String → ByteArray → Except String (List (Option Json))
  /-- The error when a field is missing or has a value of another type. -/
  fieldError : List String → ByteArray → String
  /-- The value that is read back from what is written for a value. Reading may move a floating
      point number by its last bit. -/
  reread : Json → Json
  fromSlice_toVec (j : Json) : fromSlice j.toVec = .ok (reread j)
  readStruct_toVec (names : List String) {fs : List (String × Json)} (h : Json.Ordered fs) :
    readStruct names (Json.obj fs).toVec = .ok (names.map fun n => ((Json.obj fs).get n).map reread)
  reread_null : reread .null = .null
  reread_bool (b : Bool) : reread (.bool b) = .bool b
  reread_str (s : String) : reread (.str s) = .str s
  reread_int {n : Int} (hlo : -2 ^ 63 ≤ n) (hhi : n < 2 ^ 64) : reread (.int n) = .int n

namespace Serde

/-- `from_str` into a `Value`. -/
def fromStr (serde : Serde) (text : String) : Except String Json :=
  serde.fromSlice text.toByteArray

theorem fromStr_print (serde : Serde) (j : Json) : serde.fromStr j.print = .ok (serde.reread j) :=
  serde.fromSlice_toVec j

/-! ## A reader of compact texts -/

def readBytes (bytes : ByteArray) : Except String Json :=
  match (String.fromUTF8? bytes).bind Json.read with
  | some j => .ok j
  | none => .error "expected value"

theorem readBytes_toVec (j : Json) : readBytes j.toVec = .ok j.normal := by
  have h : String.fromUTF8? j.toVec = some j.print := by
    unfold String.fromUTF8? Json.toVec
    rw [dif_pos j.print.isValidUTF8]
    rfl
  simp [readBytes, h, Json.read_print]

/-- A field read from a whole object. -/
theorem get_map_normal (fs : List (String × Json)) (n : String) :
    (Json.obj (fs.map fun f => (f.1, f.2.normal))).get n = ((Json.obj fs).get n).map Json.normal := by
  induction fs with
  | nil => rfl
  | cons f fs ih =>
    simp only [Json.get, Json.fields, List.map_cons, List.find?_cons] at ih ⊢
    cases decide (f.1 = n) with
    | true => rfl
    | false => exact ih

/-- The readers that take exactly the compact texts. -/
def compact : Serde where
  fromSlice := readBytes
  readStruct names bytes :=
    match readBytes bytes with
    | .ok (.obj fs) => .ok (names.map fun n => (Json.obj fs).get n)
    | .ok _ => .error "invalid type"
    | .error e => .error e
  fieldError _ _ := "invalid type"
  reread := Json.normal
  fromSlice_toVec := readBytes_toVec
  readStruct_toVec names fs h := by
    rw [readBytes_toVec, Json.normal_obj h]
    simp only [get_map_normal]
  reread_null := by rw [Json.normal] <;> simp
  reread_bool b := by rw [Json.normal] <;> simp
  reread_str s := by rw [Json.normal] <;> simp
  reread_int _ _ := by rw [Json.normal] <;> simp

end Serde
