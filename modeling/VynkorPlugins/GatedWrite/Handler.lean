import VynkorPlugins.Base.FileCalls

/-!
# The confirmed write of the `gated-write` plugin

`gated-write/src/handler.rs`: the write that runs once a pending request is confirmed.
-/

namespace GatedWrite

open Hoare Posix

structure WriteParams where
  path : String
  content : String
  /-- `true` appends, `false` truncates and overwrites. -/
  append : Bool

inductive WriteError
  | notRelative
  | parentDir
  | createParent (e : IoError)
  | resolveData (e : IoError)
  | resolveParent (e : IoError)
  | outside
  | symlink
  | openTarget (e : IoError)
  | write (e : IoError)
  /-- The target has no parent: the program stops. -/
  | panicked
  deriving DecidableEq

/-- The target is always the path joined to the data directory. -/
def safe_target (data_dir : Path) (rel_path : String) : Except WriteError Path :=
  let rel := Path.parse rel_path
  if rel.absolute then .error .notRelative
  else if .parentDir ∈ rel.components then .error .parentDir
  else .ok { data_dir with components := data_dir.components ++ rel.components }

def execute_write (data_dir : Path) (params : WriteParams) :
    Comp (World Unit) WriteError (Path × Nat) := do
  let target ← ofExcept (safe_target data_dir params.path)
  match target.parent with
  | some parent => mapErr (Fs.create_dir_all () parent) .createParent
  | none => pure ()
  let canonical_data ← mapErr (Fs.canonicalize data_dir) .resolveData
  match target.parent with
  | none => throw .panicked
  | some parent =>
    let canonical_parent ← mapErr (Fs.canonicalize parent) .resolveParent
    if ¬ canonical_data <+: canonical_parent then throw .outside
    match ← attempt (Fs.symlink_metadata target) with
    | .ok (_, .symlink _) => throw .symlink
    | _ => pure ()
    let content := params.content.toByteArray.toList
    if params.append then
      let f ← mapErr (Fs.open_append () target) .openTarget
      mapErr (Fs.append_all () f content) .write
    else
      mapErr (Fs.write () target content) .write
    return (target, content.length)

/-! ## What a write may touch -/

/-- The real data directory is `root`, nothing outside of it is changed, and a write that succeeds leaves its
    content in the file and the other files as they were. -/
structure Gated (root : RealPath) (params : WriteParams) (cwd : RealPath) (before after : FileTree)
    (r : Except WriteError (Path × Nat)) : Prop where
  outside : ∀ q, ¬ root <+: q → after.node q = before.node q
  written : ∀ path n, r = .ok (path, n) → ∃ q,
    after.stat cwd path = .ok (q, .file
      ((if params.append then before.data q else []) ++ params.content.toByteArray.toList)) ∧
    ∀ x, x ≠ q → before.node x ≠ none → after.node x = before.node x

/-- The directories that are missing above the target would be inside of the data directory, and the target is
    no device or pipe in it. -/
structure Contained (fs : FileTree) (cwd root : RealPath) (target : Path) : Prop where
  missing : ∀ parent, target.parent = some parent → parent.Valid → fs.MissingInside cwd root parent
  regular : ∀ q data, fs.lstat cwd target = .ok (q, .other data) → ¬ root <+: q

/-- A write is contained if its path is refused or its target is. -/
def WriteContained (fs : FileTree) (cwd root : RealPath) (data_dir : Path) (params : WriteParams) : Prop :=
  ∀ target, safe_target data_dir params.path = .ok target → Contained fs cwd root target

end GatedWrite
