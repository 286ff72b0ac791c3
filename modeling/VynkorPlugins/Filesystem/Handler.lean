import VynkorPlugins.Filesystem.Request
import VynkorPlugins.Filesystem.Sandbox

/-!
# The actions of the filesystem plugin

`filesystem/src/handler.rs`. What the calls act on is noted by the calls themselves.
-/

namespace Filesystem

open Hoare Posix

structure Config where
  max_list_entries : Nat
  max_read_bytes : Nat

def MAX_READ_BYTES_HARD_CAP : Nat := 8 * 1024 * 1024

def clamp_max_read (n : Nat) : Nat :=
  min n MAX_READ_BYTES_HARD_CAP

/-- What the actions find outside of the tree: the environment, the date, the attributes of what is in the
    tree, and the coding of bytes as texts. -/
structure Env extends Decoders where
  encode_base64 : List UInt8 → String
  xdg_data_home : Option String
  home : Option String
  deletion_date : String
  len : RealPath → Node → Nat
  modified_unix_ms : RealPath → Node → Option Nat

/-! ## Errors -/

def not_found_or_io (path : String) (e : IoError) : String :=
  if e = .notFound then "ERR_FILES_NOT_FOUND: `path` (" ++ path ++ ") does not exist"
  else "ERR_FILES_IO: cannot stat " ++ path ++ ": " ++ e.text

def list_io (path : String) (e : IoError) : String :=
  "ERR_FILES_IO: cannot list " ++ path ++ ": " ++ e.text

def open_io (path : String) (e : IoError) : String :=
  "ERR_FILES_IO: cannot open " ++ path ++ ": " ++ e.text

def seek_io (path : String) (e : IoError) : String :=
  "ERR_FILES_IO: seek failed on " ++ path ++ ": " ++ e.text

def read_io (path : String) (e : IoError) : String :=
  "ERR_FILES_IO: read failed on " ++ path ++ ": " ++ e.text

def create_parents_io (path : String) (e : IoError) : String :=
  "ERR_FILES_IO: cannot create parent directories for " ++ path ++ ": " ++ e.text

def write_io (path : String) (e : IoError) : String :=
  "ERR_FILES_IO: write failed on " ++ path ++ ": " ++ e.text

/-! ## Entries -/

inductive Kind
  | Dir
  | File
  | Symlink
  | Other
  deriving DecidableEq

def Kind.as_str : Kind → String
  | .Dir => "dir"
  | .File => "file"
  | .Symlink => "symlink"
  | .Other => "other"

/-- Directories sort first. -/
def rank : Kind → Nat
  | .Dir => 0
  | _ => 1

structure Entry where
  name : String
  kind : Kind
  size_bytes : Nat
  modified_unix_ms : Option Nat

namespace Entry

def from_lstat (env : Env) (name : String) : Option (RealPath × Node) → Entry
  | none => { name, kind := .Other, size_bytes := 0, modified_unix_ms := none }
  | some (q, n) =>
    let kind := match n with
      | .symlink _ => Kind.Symlink
      | .dir _ => .Dir
      | .file _ => .File
      | .other _ => .Other
    { name, kind, size_bytes := env.len q n, modified_unix_ms := env.modified_unix_ms q n }

def to_json (e : Entry) : Json :=
  .obj [
    ("kind", .str e.kind.as_str), ("modified_unix_ms", (e.modified_unix_ms.map (.int ·)).getD .null),
    ("name", .str e.name), ("size_bytes", .int e.size_bytes)]

/-- The order of a listing. -/
def le (a b : Entry) : Bool :=
  rank a.kind < rank b.kind ∨ (rank a.kind = rank b.kind ∧ a.name ≤ b.name)

end Entry

/-! ## Actions -/

structure Handler where
  sandbox : Sandbox
  config : Config
  env : Env

namespace Handler

variable (h : Handler)

/-- The entries of a directory, each looked at by itself. -/
def collectEntries (dir : List String) (include_hidden : Bool) : List String → Action (List Entry)
  | [] => return []
  | name :: names => do
    if ¬ include_hidden ∧ name.toList.head? = some '.' then collectEntries dir include_hidden names
    else
      let lstat ← attempt (Fs.symlink_metadata (.ofNames (dir ++ [name])))
      let entries ← collectEntries dir include_hidden names
      return .from_lstat h.env name lstat.toOption :: entries

def fs_list (p : ListParams) : Action Json := do
  let resolved ← h.sandbox.resolve p.path
  let (_, n) ← mapErr (Fs.metadata resolved.toPath) (not_found_or_io p.path)
  if ¬ n.isDir then throw ("ERR_FILES_NOT_A_DIRECTORY: `path` (" ++ p.path ++ ") is not a directory")
  let names ← mapErr (Fs.read_dir .request resolved.toPath) (list_io p.path)
  let entries ← collectEntries h resolved.path p.include_hidden names
  let shown := (entries.mergeSort Entry.le).take h.config.max_list_entries
  return .obj [
    ("entries", .arr (shown.map Entry.to_json)), ("path", .str (display resolved.path)),
    ("truncated", .bool (h.config.max_list_entries < entries.length))]

def fs_read (p : ReadParams) : Action Json := do
  let resolved ← h.sandbox.resolve p.path
  let (q, n) ← mapErr (Fs.metadata resolved.toPath) (not_found_or_io p.path)
  if n.isDir then
    throw ("ERR_FILES_IS_A_DIRECTORY: `path` (" ++ p.path ++ ") is a directory, not a file")
  let file_size := h.env.len q n
  let window := clamp_max_read (p.max_bytes.getD h.config.max_read_bytes)
  let file ← mapErr (Fs.openRead .request resolved.toPath) (open_io p.path)
  if 0 < p.offset then mapErr (Fs.seek p.offset) (seek_io p.path)
  let buf ← mapErr (Fs.read file p.offset window) (read_io p.path)
  let truncated : Bool := min (p.offset + buf.length) (2 ^ 64 - 1) < file_size
  let (data, encoding) :=
    if p.offset = 0 ∧ ¬ truncated then
      match String.fromUTF8? ⟨buf.toArray⟩ with
      | some s => (s, "utf8")
      | none => (h.env.encode_base64 buf, "base64")
    else (h.env.encode_base64 buf, "base64")
  return .obj [
    ("data", .str data), ("encoding", .str encoding), ("size_bytes", .int buf.length),
    ("truncated", .bool truncated)]

def fs_write (p : WriteParams) : Action Json := do
  let resolved ← h.sandbox.resolve p.path
  if resolved.is_root then
    throw ("ERR_FILES_IS_A_DIRECTORY: `path` (" ++ p.path
      ++ ") is an allowed root; fs_write targets files only")
  match ← attempt (Fs.symlink_metadata resolved.toPath) with
  | .ok (_, .symlink _) =>
    throw ("ERR_FILES_SYMLINK: refusing to write through symlink `path` (" ++ p.path ++ ")")
  | .ok (_, .dir _) => throw ("ERR_FILES_IS_A_DIRECTORY: `path` (" ++ p.path ++ ") is a directory")
  | _ => pure ()
  if resolved.path = [] then
    throw ("ERR_FILES_PATH_UNRESOLVABLE: `path` (" ++ p.path ++ ") has no parent")
  let parent := Path.ofNames resolved.path.dropLast
  if p.create_parents then
    mapErr (Fs.create_dir_all .request parent) (create_parents_io p.path)
  else if ¬ (← Fs.path_is_dir parent) then
    throw ("ERR_FILES_NOT_FOUND: parent directory of `path` (" ++ p.path
      ++ ") does not exist; set create_parents=true to create it")
  mapErr (Fs.write .request resolved.toPath p.bytes) (write_io p.path)
  return .obj [("path", .str (display resolved.path)), ("written_bytes", .int p.bytes.length)]

/-- The first name that is free in the trash. -/
def freeDest (files_dir : Path) (file_name : String) : Nat → Nat → Action String
  | 0, _ => throw "ERR_FILES_IO: trash is full"
  | fuel + 1, counter => do
    let name := if counter = 0 then file_name else file_name ++ "." ++ toString counter
    if ← Fs.path_exists (files_dir.join name) then freeDest files_dir file_name fuel (counter + 1)
    else return name

def trash_base : Path :=
  match h.env.xdg_data_home with
  | some data => (Path.parse data).join "Trash"
  | none => (((Path.parse (h.env.home.getD "/tmp")).join ".local").join "share").join "Trash"

def trash_move (original : List String) : Action Unit := do
  let files_dir := (trash_base h).join "files"
  let info_dir := (trash_base h).join "info"
  mapErr (Fs.create_dir_all .trash files_dir) fun e =>
    "ERR_FILES_IO: cannot create trash files dir: " ++ e.text
  mapErr (Fs.create_dir_all .trash info_dir) fun e =>
    "ERR_FILES_IO: cannot create trash info dir: " ++ e.text
  -- each name that is taken is another place, so there are more names than places
  let fuel ← mapErr Fs.depth IoError.text
  let name ← freeDest files_dir (original.getLastD "unknown") (fuel + 1) 0
  mapErr (Fs.rename .request .trash (.ofNames original) (files_dir.join name)) fun e =>
    "ERR_FILES_IO: trash move failed: " ++ e.text
  let info_content := "[Trash Info]\nPath=" ++ display original ++ "\nDeletionDate="
    ++ h.env.deletion_date ++ "\n"
  mapErr (Fs.write .trash (info_dir.join (name ++ ".trashinfo")) info_content.toByteArray.toList) fun e =>
    "ERR_FILES_IO: cannot write trashinfo: " ++ e.text

def fs_delete (p : DeleteParams) : Action Json := do
  let resolved ← h.sandbox.resolve p.path
  if resolved.is_root then
    throw ("ERR_FILES_IS_A_DIRECTORY: refusing to delete allowed root " ++ p.path)
  let (_, n) ← mapErr (Fs.symlink_metadata resolved.toPath) (not_found_or_io p.path)
  if p.to_trash then trash_move h resolved.path
  else if n.isDir then mapErr (Fs.remove_dir_all .request resolved.toPath) (write_io p.path)
  else mapErr (Fs.remove_file .request resolved.toPath) (write_io p.path)
  return .obj [
    ("deleted", .bool true), ("path", .str (display resolved.path)), ("trashed", .bool p.to_trash)]

def fs_mkdir (p : MkdirParams) : Action Json := do
  let resolved ← h.sandbox.resolve p.path
  if ← Fs.path_exists resolved.toPath then
    let (_, n) ← mapErr (Fs.symlink_metadata resolved.toPath) (not_found_or_io p.path)
    if n.isDir then
      return .obj [("created", .bool false), ("path", .str (display resolved.path))]
    throw ("ERR_FILES_EXISTS: path " ++ p.path ++ " exists and is not a directory")
  if p.parents then mapErr (Fs.create_dir_all .request resolved.toPath) (create_parents_io p.path)
  else mapErr (Fs.create_dir .request resolved.toPath) (create_parents_io p.path)
  return .obj [("created", .bool true), ("path", .str (display resolved.path))]

/-- What is at the destination is removed. -/
def removeDestination (p : RenameParams) (target : Path) : Action Unit := do
  let (_, n) ← mapErr (Fs.symlink_metadata target) (not_found_or_io p.to)
  if n.isDir then mapErr (Fs.remove_dir_all .request target) (write_io p.to)
  else mapErr (Fs.remove_file .request target) (write_io p.to)

/-- A rename and a move differ in the words of their answers only. -/
def relocate (verb done : String) (p : RenameParams) : Action Json := do
  let from_resolved ← h.sandbox.resolve p.from
  let to_resolved ← h.sandbox.resolve p.to
  if from_resolved.is_root ∨ to_resolved.is_root then
    throw ("ERR_FILES_IS_A_DIRECTORY: refusing to " ++ verb ++ " allowed root")
  let _ ← mapErr (Fs.symlink_metadata from_resolved.toPath) (not_found_or_io p.from)
  if (← Fs.path_exists to_resolved.toPath) ∧ ¬ p.overwrite then
    throw ("ERR_FILES_EXISTS: destination " ++ p.to ++ " already exists (set overwrite=true)")
  if to_resolved.path ≠ [] then
    let parent := to_resolved.path.dropLast
    if ¬ (← Fs.path_is_dir (.ofNames parent)) then
      throw ("ERR_FILES_NOT_FOUND: destination parent " ++ display parent ++ " does not exist")
  if p.overwrite then
    if ← Fs.path_exists to_resolved.toPath then removeDestination p to_resolved.toPath
  mapErr (Fs.rename .request .request from_resolved.toPath to_resolved.toPath)
    (write_io (p.from ++ " -> " ++ p.to))
  return .obj [
    ("from", .str (display from_resolved.path)), (done, .bool true),
    ("to", .str (display to_resolved.path))]

def fs_rename (p : RenameParams) : Action Json := relocate h "rename" "renamed" p

def fs_move (p : MoveParams) : Action Json := relocate h "move" "moved" p

def dispatch : Request → Action Json
  | .List p => fs_list h p
  | .Read p => fs_read h p
  | .Write p => fs_write h p
  | .Delete p => fs_delete h p
  | .Mkdir p => fs_mkdir h p
  | .Rename p => fs_rename h p
  | .Move p => fs_move h p

def handle (action : String) (params_json : ByteArray) : Action Json :=
  match parse_request h.env.toDecoders action params_json with
  | .error e => throw e
  | .ok req => dispatch h req

end Handler

end Filesystem
