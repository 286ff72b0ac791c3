import VynkorPlugins.Base.Pointer
import VynkorPlugins.Base.Serde

/-!
# Completions

The normalized result of a completion and what the adapters of the providers share (`provider/mod.rs`).
-/

namespace Ai

/-- One tool invocation requested by the model. -/
structure ToolCall where
  id : String
  name : String
  arguments_json : String

structure Usage where
  input_tokens : Nat := 0
  output_tokens : Nat := 0

structure ChatResult where
  content : String
  tool_calls : List ToolCall
  stop_reason : String
  usage : Usage

/-- One increment of a streamed completion. -/
inductive StreamDelta where
  | text (s : String)

def StreamDelta.str : StreamDelta → String
  | .text s => s

/-- How a parser fails: with an error, or with a panic of its task. -/
inductive Fail where
  | error (e : String)
  | panic

/-- What a parser makes of a piece of its input. -/
abbrev Parsed := Except Fail

/-- The largest number of bytes of a vector. -/
def isizeMax : Nat := 2 ^ 63 - 1

/-- A vector of `len` items of three words each, twice, can be allocated: three strings, or a string
    and two optional ones. -/
def Fits (len : Nat) : Prop := 72 * len ≤ isizeMax

instance (len : Nat) : Decidable (Fits len) := by
  unfold Fits; infer_instance

/-! ## Members of JSON values -/

/-- `get(name).and_then(as_str)`. -/
def strOf (v : Json) (name : String) : Option String :=
  (v.get name).bind Json.asStr

def strAt (v : Json) (ptr : String) : Option String :=
  (v.pointer ptr.toList).bind Json.asStr

def u64At (v : Json) (ptr : String) : Option Nat :=
  (v.pointer ptr.toList).bind Json.asU64

/-! ## Derived readers

A reader of a field gives no value where the derived one gives an error. -/

/-- The fields of a structure inside of a value: an object, or an array with the fields in order. -/
def structFields (names : List String) : Json → Option (List (Option Json))
  | .obj fs => some (names.map (Json.obj fs).get)
  | .arr items =>
    if items.length ≤ names.length then some ((List.range names.length).map fun i => items[i]?)
    else none
  | _ => none

/-- A field of type `Option<String>`. -/
def optionalString : Option Json → Option (Option String)
  | none | some .null => some none
  | some (.str s) => some (some s)
  | some _ => none

/-- A field of type `String` with `#[serde(default)]`. -/
def defaultString : Option Json → Option String
  | none => some ""
  | some v => v.asStr

/-- A field of type `u64` with `#[serde(default)]`. -/
def defaultU64 : Option Json → Option Nat
  | none => some 0
  | some v => v.asU64

/-- The token counts of a response under the provider's names for them. -/
def readUsage (input output : String) (v : Json) : Option Usage :=
  match structFields [input, output] v with
  | some [i, o] => do return { input_tokens := ← defaultU64 i, output_tokens := ← defaultU64 o }
  | _ => none

end Ai
