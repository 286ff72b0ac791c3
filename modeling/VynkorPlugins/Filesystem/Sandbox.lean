import Mathlib.Data.List.Lex
import VynkorPlugins.Base.FileCalls
import VynkorPlugins.Base.Rust

/-!
# The sandbox

`filesystem/src/sandbox.rs`: the allowed roots, and how a requested path is resolved against them.
-/

namespace Filesystem

open Hoare Posix

/-- Whether a call acts on what is requested or on the files of the trash. -/
inductive Purpose
  | request
  | trash
  deriving DecidableEq

abbrev Disk := World Purpose

/-- What an action does with the disk. -/
abbrev Action (α : Type) := Comp Disk String α

def ALLOWED_ROOTS_ENV : String := "FILES_PLUGIN_ALLOWED_ROOTS"

/-- How an absolute path is displayed. -/
def display (path : List String) : String :=
  "/" ++ "/".intercalate path

structure Sandbox where
  roots : List RealPath

structure ResolvedPath where
  path : List String
  is_root : Bool

/-- The path of the names, for a call. -/
def ResolvedPath.toPath (p : ResolvedPath) : Path :=
  .ofNames p.path

def unresolvable (requested : String) : String :=
  "ERR_FILES_PATH_UNRESOLVABLE: cannot resolve `path` (" ++ requested ++ ")"

def deny_all_error : String :=
  "ERR_FILES_NO_ROOTS: " ++ ALLOWED_ROOTS_ENV ++ " is not set — configure at least one absolute "
    ++ "directory the filesystem plugin may access (see config.example.yaml)"

namespace Sandbox

/-- A root is added in its canonical form. One that is relative or does not exist is skipped. -/
def addRoot (fs : FileTree) (cwd : RealPath) (roots : List RealPath) (entry : String) :
    List RealPath :=
  let path := Path.parse (Rust.trim entry)
  if Rust.trim entry = "" ∨ ¬ path.absolute then roots
  else
    match fs.canonicalize cwd path with
    | .ok canon => if canon ∈ roots then roots else roots ++ [canon]
    | .error _ => roots

def from_raw_roots (fs : FileTree) (cwd : RealPath) (raw : List String) : Sandbox where
  roots := (raw.foldl (addRoot fs cwd) []).mergeSort fun a b => (compare a b).isLE

/-- The loop of `resolve` behind a path that is not canonicalized, given by its components with the last one
    first: names are taken from its end until it is. -/
def popAncestor (requested : String) :
    List Component → List String → Action (RealPath × List String)
  | .normal name :: ancestor, suffix => do
    match ← attempt (Fs.canonicalize { absolute := true, components := ancestor.reverse }) with
    | .ok canon => return (canon, suffix ++ [name])
    | .error _ => popAncestor requested ancestor (suffix ++ [name])
  | .parentDir :: _, _ =>
    throw ("ERR_FILES_PATH_TRAVERSAL: `path` (" ++ requested ++ ") escapes the allowed roots via '..'")
  | .curDir :: ancestor, suffix => popAncestor requested ancestor suffix
  | [], _ => throw (unresolvable requested)

/-- The path with its deepest existing ancestor canonicalized: `suffix` is its remainder, the last name
    first. -/
def canonicalAncestor (requested : String) (path : Path) : Action (RealPath × List String) := do
  match ← attempt (Fs.canonicalize path) with
  | .ok canon => return (canon, [])
  | .error _ => popAncestor requested (path.components.filter (· ≠ .curDir)).reverse []

def resolve (sandbox : Sandbox) (requested : String) : Action ResolvedPath := do
  if sandbox.roots.isEmpty then throw deny_all_error
  let path := Path.parse requested
  if ¬ path.absolute then
    throw ("ERR_FILES_PATH_MUST_BE_ABSOLUTE: `path` (" ++ requested
      ++ ") must be an absolute path inside an allowed root")
  let (canonical_ancestor, suffix) ← canonicalAncestor requested path
  let resolved := canonical_ancestor ++ suffix.reverse
  match sandbox.roots.find? fun root => root <+: resolved with
  | some root => return { path := resolved, is_root := resolved = root }
  | none =>
    throw ("ERR_FILES_PATH_ESCAPES_ROOT: `path` (" ++ requested ++ ") resolves outside every allowed root")

end Sandbox

end Filesystem
