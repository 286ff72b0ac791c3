import VynkorPlugins.Base.Serde

/-!
# Requests of the filesystem plugin

`filesystem/src/request.rs`: parameters are parsed before anything else happens.
-/

namespace Filesystem

structure ListParams where
  path : String
  include_hidden : Bool

structure ReadParams where
  path : String
  offset : Nat
  max_bytes : Option Nat

structure WriteParams where
  path : String
  bytes : List UInt8
  create_parents : Bool

structure DeleteParams where
  path : String
  to_trash : Bool

structure MkdirParams where
  path : String
  parents : Bool

structure RenameParams where
  «from» : String
  «to» : String
  overwrite : Bool

/-- The parameters of a move are those of a rename. -/
abbrev MoveParams := RenameParams

inductive Request
  | List (p : ListParams)
  | Read (p : ReadParams)
  | Write (p : WriteParams)
  | Delete (p : DeleteParams)
  | Mkdir (p : MkdirParams)
  | Rename (p : RenameParams)
  | Move (p : MoveParams)

/-! ## Fields -/

def requiredString : Option Json → Option String
  | some (.str s) => some s
  | _ => none

def optionalString : Option Json → Option (Option String)
  | none | some .null => some none
  | some (.str s) => some (some s)
  | some _ => none

def optionalBool : Option Json → Option (Option Bool)
  | none | some .null => some none
  | some (.bool b) => some (some b)
  | some _ => none

/-- `#[serde(default)]`: a field that is there has to have its type. -/
def defaultBool : Option Json → Option Bool
  | none => some false
  | some (.bool b) => some b
  | some _ => none

def defaultU64 : Option Json → Option Nat
  | none => some 0
  | some j => j.asU64

def optionalU64 : Option Json → Option (Option Nat)
  | none | some .null => some none
  | some j => j.asU64.map some

def require_nonempty_path (path action : String) : Except String String :=
  if path = "" then .error ("ERR_FILES_BAD_PARAMS: `path` must be a non-empty string (" ++ action ++ ")")
  else .ok path

/-! ## Parsing -/

/-- The readers of JSON and of base64. -/
structure Decoders where
  serde : Serde
  decode_base64 : String → Except String (List UInt8)

section

variable (dec : Decoders)

/-- The fields of the parameters, read by `read`. -/
def readParams {α : Type} (action expected : String) (names : List String)
    (read : List (Option Json) → Option α) (params_json : ByteArray) : Except String α :=
  let invalid (e : String) : Except String α :=
    .error ("ERR_FILES_BAD_PARAMS: invalid params for " ++ action ++ ", expected " ++ expected ++ ": " ++ e)
  match dec.serde.readStruct names params_json with
  | .error e => invalid e
  | .ok fields =>
    match read fields with
    | some raw => .ok raw
    | none => invalid (dec.serde.fieldError names params_json)

def parse_list (params_json : ByteArray) : Except String Request := do
  let (path, include_hidden) ← readParams dec "fs_list" "\x7bpath, include_hidden?\x7d"
    ["path", "include_hidden"] (fun fs => do
      return (← requiredString (fs.getD 0 none), ← defaultBool (fs.getD 1 none))) params_json
  return .List { path := ← require_nonempty_path path "fs_list", include_hidden }

def parse_read (params_json : ByteArray) : Except String Request := do
  let (path, offset, max_bytes) ← readParams dec "fs_read" "\x7bpath, offset?, max_bytes?\x7d"
    ["path", "offset", "max_bytes"] (fun fs => do
      return (← requiredString (fs.getD 0 none), ← defaultU64 (fs.getD 1 none),
        ← optionalU64 (fs.getD 2 none))) params_json
  return .Read { path := ← require_nonempty_path path "fs_read", offset, max_bytes }

def parse_write (params_json : ByteArray) : Except String Request := do
  let (path, text, content_base64, create_parents) ← readParams dec "fs_write"
    "\x7bpath, text?|content_base64?, create_parents?\x7d"
    ["path", "text", "content_base64", "create_parents"] (fun fs => do
      return (← requiredString (fs.getD 0 none), ← optionalString (fs.getD 1 none),
        ← optionalString (fs.getD 2 none), ← defaultBool (fs.getD 3 none))) params_json
  let path ← require_nonempty_path path "fs_write"
  let exactlyOne := "ERR_FILES_BAD_PARAMS: fs_write requires exactly one of `text` or `content_base64`"
  match text, content_base64 with
  | some t, none => return .Write { path, bytes := t.toByteArray.toList, create_parents }
  | none, some b64 =>
    match dec.decode_base64 b64 with
    | .ok bytes => return .Write { path, bytes, create_parents }
    | .error e => throw ("ERR_FILES_BAD_PARAMS: `content_base64` is not valid base64: " ++ e)
  | none, none => throw exactlyOne
  | some _, some _ => throw (exactlyOne ++ ", not both")

def parse_delete (params_json : ByteArray) : Except String Request := do
  let (path, to_trash) ← readParams dec "fs_delete" "\x7bpath, to_trash?\x7d" ["path", "to_trash"]
    (fun fs => do
      return (← requiredString (fs.getD 0 none), ← optionalBool (fs.getD 1 none))) params_json
  return .Delete { path := ← require_nonempty_path path "fs_delete", to_trash := to_trash.getD true }

def parse_mkdir (params_json : ByteArray) : Except String Request := do
  let (path, parents) ← readParams dec "fs_mkdir" "\x7bpath, parents?\x7d" ["path", "parents"]
    (fun fs => do
      return (← requiredString (fs.getD 0 none), ← defaultBool (fs.getD 1 none))) params_json
  return .Mkdir { path := ← require_nonempty_path path "fs_mkdir", parents }

/-- A rename and a move are parsed alike. -/
def parse_relocation (action : String) (params_json : ByteArray) : Except String RenameParams := do
  let (source, target, overwrite) ← readParams dec action "\x7bfrom, to, overwrite?\x7d"
    ["from", "to", "overwrite"] (fun fs => do
      return (← requiredString (fs.getD 0 none), ← requiredString (fs.getD 1 none),
        ← defaultBool (fs.getD 2 none))) params_json
  let source ← require_nonempty_path source (action ++ ".from")
  let target ← require_nonempty_path target (action ++ ".to")
  return { «from» := source, «to» := target, overwrite }

def parse_request (action : String) (params_json : ByteArray) : Except String Request :=
  match action with
  | "fs_list" => parse_list dec params_json
  | "fs_read" => parse_read dec params_json
  | "fs_write" => parse_write dec params_json
  | "fs_delete" => parse_delete dec params_json
  | "fs_mkdir" => parse_mkdir dec params_json
  | "fs_rename" => (parse_relocation dec "fs_rename" params_json).map .Rename
  | "fs_move" => (parse_relocation dec "fs_move" params_json).map .Move
  | other => .error ("ERR_FILES_BAD_PARAMS: unknown action: " ++ other)

end

end Filesystem
