import VynkorPlugins.Base.FileTree

/-!
# Calls on a file tree

The calls of the standard library of Rust that the plugins make. Any call of the system may fail. Each call
that goes through notes the places it acts on, in the name that it is made in.
-/

namespace Posix

open Hoare

/-! ## Ways -/

/-- The most links on the way of one path. -/
def MAXSYMLINKS : Nat := 40

namespace FileTree

/-- Where the way of a path begins that is relative to `cwd`. -/
def origin (cwd : RealPath) (p : Path) : RealPath :=
  if p.absolute then [] else cwd

variable (fs : FileTree)

/-- The way of some components from a place, with `follow` for the links on it. Only the last component may
    name something that is not there. -/
def walkWith (follow : RealPath → List Component → Except IoError (RealPath × Nat)) (links : Nat) :
    RealPath → List Component → Except IoError (RealPath × Nat)
  | q, [] => .ok (q, links)
  | q, c :: rest =>
    match fs.node q with
    | some (.dir _) =>
      match c with
      | .curDir => walkWith follow links q rest
      | .parentDir => walkWith follow links q.dropLast rest
      | .normal name =>
        match fs.node (q ++ [name]) with
        | some (.symlink target) =>
          follow (origin q target) (target.components ++ rest)
        | _ => walkWith follow links (q ++ [name]) rest
    | some _ => .error .notADirectory
    | none => .error .notFound

/-- The place at the end of a way, and how many more links it could have followed. -/
def walk : Nat → RealPath → List Component → Except IoError (RealPath × Nat)
  | 0 => fs.walkWith (fun _ _ => .error .filesystemLoop) 0
  | links + 1 => fs.walkWith (walk links) (links + 1)

variable (cwd : RealPath)

/-- Where a path leads to. The empty path leads nowhere. -/
def follow (p : Path) : Except IoError RealPath :=
  if ¬ p.absolute ∧ p.components = [] then .error .notFound
  else if p.Valid then (fs.walk MAXSYMLINKS (origin cwd p) p.components).map Prod.fst
  else .error .nulByte

/-- The place that a path names: a link at its end is not followed. -/
def place (p : Path) : Except IoError RealPath :=
  match p.components.getLast? with
  | some (.normal name) =>
    if p.Valid then
      match fs.walk MAXSYMLINKS (origin cwd p) p.components.dropLast with
      | .error e => .error e
      | .ok (q, _) =>
        match fs.node q with
        | some (.dir _) => .ok (q ++ [name])
        | some _ => .error .notADirectory
        | none => .error .notFound
    else .error .nulByte
  | _ => fs.follow cwd p

/-- What there is at a place that a path leads to. -/
def existing (q : Except IoError RealPath) : Except IoError (RealPath × Node) :=
  match q with
  | .error e => .error e
  | .ok q =>
    match fs.node q with
    | some n => .ok (q, n)
    | none => .error .notFound

def stat (p : Path) : Except IoError (RealPath × Node) :=
  fs.existing (fs.follow cwd p)

def lstat (p : Path) : Except IoError (RealPath × Node) :=
  fs.existing (fs.place cwd p)

def canonicalize (p : Path) : Except IoError RealPath :=
  (fs.stat cwd p).map Prod.fst

/-- The tree with a new directory. -/
def mkdir (p : Path) : Except IoError (RealPath × FileTree) :=
  match fs.place cwd p with
  | .error e => .error e
  | .ok q =>
    if (fs.node q).isSome then .error .alreadyExists
    else if h : fs.Room q then
      .ok (q, fs.insert q (.dir fs.nextIno) h fun _ h => (Node.dir.inj h).symm)
    else .error .notFound

/-- The tree with other data at a place, where there is a file or nothing. -/
def setFile (q : RealPath) (data : List UInt8) : Except IoError FileTree :=
  match fs.node q with
  | some (.dir _) => .error .isADirectory
  | some (.symlink _) => .error .filesystemLoop
  | some (.other _) => .ok fs
  | _ => if h : fs.Room q then .ok (fs.insert q (.file data) h nofun) else .error .notFound

/-- Each directory that is missing where the way of a path gets to would lie inside of `root`. -/
def MissingInside (root : RealPath) (p : Path) : Prop :=
  ∀ above name below, p.components = above ++ .normal name :: below →
    ∀ q links, fs.walk MAXSYMLINKS (origin cwd p) above = .ok (q, links) →
      fs.isDir q = true → fs.node (q ++ [name]) = none → root <+: q

/-- The bytes of the file at a place. -/
def data (q : RealPath) : List UInt8 :=
  match fs.node q with
  | some (.file data) => data
  | _ => []

/-- The tree without the entry at a place. A directory has to be empty. -/
def unlinkat (q : RealPath) : Except IoError FileTree :=
  if (fs.node q).isNone then .error .notFound
  else if ¬ (fs.children q).isEmpty then .error .directoryNotEmpty
  else if h : q ≠ [] then .ok (fs.prune q h)
  else .error .resourceBusy

/-- The tree after `rename`: the entry at `a` takes the place `b`. A directory can only replace an empty
    directory, and nothing else can replace a directory. -/
def renameat (a b : RealPath) : Except IoError FileTree :=
  match fs.node a with
  | none => .error .notFound
  | some n =>
    if a = b then .ok fs
    else if a = [] ∨ b = [] then .error .resourceBusy
    else if a <+: b then .error .invalidInput
    else if b <+: a then .error .directoryNotEmpty
    else if fs.isDir b ∧ ¬ n.isDir then .error .isADirectory
    else if fs.isDir b ∧ ¬ (fs.children b).isEmpty then .error .directoryNotEmpty
    else if (fs.node b).isSome ∧ ¬ fs.isDir b ∧ n.isDir then .error .notADirectory
    else if h : fs.Movable a b then .ok (fs.move a b h)
    else .error .notFound

end FileTree

/-! ## Calls -/

/-- A tree in use. `fault` tells which of the calls fail for a reason outside of the tree, by their numbers.
    `log` is what calls have acted on; no code reads it. -/
structure World (L : Type) where
  fs : FileTree
  cwd : RealPath := []
  fault : Nat → Option IoError := fun _ => none
  calls : Nat := 0
  log : List (L × RealPath) := []

abbrev Io (L α : Type) := Comp (World L) IoError α

variable {L α : Type}

def World.tick (w : World L) : World L :=
  { w with calls := w.calls + 1 }

/-- One call of the system: what it makes of the tree and the places that it acts on. -/
def call (f : FileTree → RealPath → Except IoError (α × FileTree × List (L × RealPath))) : Io L α :=
  fun w =>
    match w.fault w.calls with
    | some e => (.error e, w.tick)
    | none =>
      match f w.fs w.cwd with
      | .error e => (.error e, w.tick)
      | .ok (a, fs, acted) => (.ok a, { w.tick with fs, log := w.log ++ acted })

namespace Fs

/-- A call that only looks at the tree. -/
def look (f : FileTree → RealPath → Except IoError α) : Io L α :=
  call fun fs cwd => (f fs cwd).map fun a => (a, fs, [])

def canonicalize (p : Path) : Io L RealPath := look fun fs cwd => fs.canonicalize cwd p

def metadata (p : Path) : Io L (RealPath × Node) := look fun fs cwd => fs.stat cwd p

def symlink_metadata (p : Path) : Io L (RealPath × Node) := look fun fs cwd => fs.lstat cwd p

/-- `Path::exists`. -/
def path_exists {ε : Type} (p : Path) : Comp (World L) ε Bool := do
  match ← attempt (metadata p) with
  | .ok _ => return true
  | .error _ => return false

/-- `Path::is_dir`. -/
def path_is_dir {ε : Type} (p : Path) : Comp (World L) ε Bool := do
  match ← attempt (metadata p) with
  | .ok (_, n) => return n.isDir
  | .error _ => return false

def read_dir (l : L) (p : Path) : Io L (List String) :=
  call fun fs cwd =>
    match fs.stat cwd p with
    | .error e => .error e
    | .ok (q, .dir _) => .ok (fs.children q, fs, [(l, q)])
    | .ok _ => .error .notADirectory

/-- Opens a file for reading. -/
def openRead (l : L) (p : Path) : Io L Node :=
  call fun fs cwd =>
    match fs.stat cwd p with
    | .error e => .error e
    | .ok (q, n) => .ok (n, fs, [(l, q)])

/-- `SeekFrom::Start`. -/
def seek (offset : Nat) : Io L Unit :=
  look fun _ _ => if offset < 2 ^ 63 then .ok () else .error .invalidInput

/-- The bytes of an open file in a window. -/
def read (n : Node) (offset window : Nat) : Io L (List UInt8) :=
  look fun _ _ =>
    match n with
    | .dir _ => .error .isADirectory
    | .symlink _ => .error .filesystemLoop
    | .file data | .other data => .ok ((data.drop offset).take window)

/-- Opens a file for writing and empties it: the place of the file. -/
def create (l : L) (p : Path) : Io L RealPath :=
  call fun fs cwd =>
    match fs.follow cwd p with
    | .error e => .error e
    | .ok q => (fs.setFile q []).map fun fs => (q, fs, [(l, q)])

def write_all (l : L) (q : RealPath) (data : List UInt8) : Io L Unit :=
  call fun fs _ => (fs.setFile q data).map fun fs => ((), fs, [(l, q)])

/-- `fs::write`. -/
def write (l : L) (p : Path) (data : List UInt8) : Io L Unit := do
  let q ← create l p
  write_all l q data

/-- Opens a file for appending, and makes it where there is none: the place of the file. -/
def open_append (l : L) (p : Path) : Io L RealPath :=
  call fun fs cwd =>
    match fs.follow cwd p with
    | .error e => .error e
    | .ok q => (fs.setFile q (fs.data q)).map fun fs => (q, fs, [(l, q)])

/-- Writes at the end of a file. -/
def append_all (l : L) (q : RealPath) (data : List UInt8) : Io L Unit :=
  call fun fs _ => (fs.setFile q (fs.data q ++ data)).map fun fs => ((), fs, [(l, q)])

def create_dir (l : L) (p : Path) : Io L Unit :=
  call fun fs cwd => (fs.mkdir cwd p).map fun (q, fs) => ((), fs, [(l, q)])

/-- `fs::create_dir_all`: the directories above are made where the path is not found. -/
def create_dir_all_upto (l : L) : Nat → Path → Io L Unit
  | 0, _ => throw (.other "failed to create whole tree")
  | fuel + 1, p => do
    if ¬ p.absolute ∧ p.components = [] then return ()
    match ← attempt (create_dir l p) with
    | .ok () => return ()
    | .error .notFound =>
      match p.parent with
      | none => throw (.other "failed to create whole tree")
      | some above =>
        create_dir_all_upto l fuel above
        match ← attempt (create_dir l p) with
        | .ok () => return ()
        | .error e => if ← path_is_dir p then return () else throw e
    | .error e => if ← path_is_dir p then return () else throw e

theorem create_dir_all_upto_succ (l : L) (fuel : Nat) (p : Path) :
    create_dir_all_upto l (fuel + 1) p = (do
      if ¬ p.absolute ∧ p.components = [] then return ()
      match ← attempt (create_dir l p) with
      | .ok () => return ()
      | .error .notFound =>
        match p.parent with
        | none => throw (.other "failed to create whole tree")
        | some above =>
          create_dir_all_upto l fuel above
          match ← attempt (create_dir l p) with
          | .ok () => return ()
          | .error e => if ← path_is_dir p then return () else throw e
      | .error e => if ← path_is_dir p then return () else throw e) := rfl

def create_dir_all (l : L) (p : Path) : Io L Unit :=
  create_dir_all_upto l (p.components.length + 1) p

/-- Removes anything but a directory. -/
def remove_file (l : L) (p : Path) : Io L Unit :=
  call fun fs cwd =>
    match fs.lstat cwd p with
    | .error e => .error e
    | .ok (_, .dir _) => .error .isADirectory
    | .ok (q, _) => (fs.unlinkat q).map fun fs => ((), fs, [(l, q)])

/-- The entries of a directory that is open, and which of them are directories. -/
def entries (l : L) (q : RealPath) : Io L (List (String × Bool)) :=
  call fun fs _ =>
    if fs.isDir q then
      .ok ((fs.children q).map fun name => (name, fs.isDir (q ++ [name])), fs, [(l, q)])
    else .error .notADirectory

def unlinkat (l : L) (q : RealPath) : Io L Unit :=
  call fun fs _ => (fs.unlinkat q).map fun fs => ((), fs, [(l, q)])

/-- Removes what is in a directory and then the directory, without following a link. -/
def remove_all_upto (l : L) : Nat → RealPath → Io L Unit
  | 0, _ => throw .directoryNotEmpty
  | fuel + 1, q => do
    let names ← entries l q
    names.forM fun entry =>
      if entry.2 then remove_all_upto l fuel (q ++ [entry.1]) else unlinkat l (q ++ [entry.1])
    unlinkat l q

/-- How many directories there can be inside of each other. -/
def depth : Io L Nat := fun w => (.ok w.fs.paths.length, w)

/-- `fs::remove_dir_all`, of a directory. -/
def remove_dir_all (l : L) (p : Path) : Io L Unit := do
  let (q, _) ← symlink_metadata p
  remove_all_upto l (← depth) q

/-- `fs::rename`, with a name for what it takes away and one for what it puts there. -/
def rename (l l' : L) (source target : Path) : Io L Unit :=
  call fun fs cwd =>
    match fs.place cwd source, fs.place cwd target with
    | .ok a, .ok b => (fs.renameat a b).map fun fs => ((), fs, [(l, a), (l', b)])
    | .error e, _ | _, .error e => .error e

end Fs

end Posix
