import Mathlib.Data.List.DropRight
import Mathlib.Data.String.Basic
import VynkorPlugins.Base.Hoare

/-!
# File trees

Paths, and a tree of directories, files and symbolic links that calls of a POSIX system read and change. As
on Linux, the way of a path follows at most forty links.
-/

namespace Posix

inductive IoError
  | notFound
  | notADirectory
  | isADirectory
  | alreadyExists
  | directoryNotEmpty
  | filesystemLoop
  | invalidInput
  | resourceBusy
  | nulByte
  | other (text : String)
  deriving DecidableEq

/-- What an error is displayed as. -/
def IoError.text : IoError → String
  | .notFound => "No such file or directory (os error 2)"
  | .notADirectory => "Not a directory (os error 20)"
  | .isADirectory => "Is a directory (os error 21)"
  | .alreadyExists => "File exists (os error 17)"
  | .directoryNotEmpty => "Directory not empty (os error 39)"
  | .filesystemLoop => "Too many levels of symbolic links (os error 40)"
  | .invalidInput => "Invalid argument (os error 22)"
  | .resourceBusy => "Device or resource busy (os error 16)"
  | .nulByte => "file name contained an unexpected NUL byte"
  | .other text => text

/-! ## Paths -/

/-- The names that an entry of a directory can have. -/
def ValidName (name : String) : Prop :=
  name ≠ "" ∧ name ≠ "." ∧ name ≠ ".." ∧ '/' ∉ name.toList ∧ '\x00' ∉ name.toList

instance (name : String) : Decidable (ValidName name) :=
  inferInstanceAs (Decidable (_ ∧ _ ∧ _ ∧ _ ∧ _))

inductive Component
  | curDir
  | parentDir
  | normal (name : String)
  deriving DecidableEq

/-- An empty segment of a path stands for the directory before it, as `.` does. -/
def Component.ofSegment (s : String) : Component :=
  if s = "" ∨ s = "." then .curDir else if s = ".." then .parentDir else .normal s

def Component.Valid : Component → Prop
  | .normal name => ValidName name
  | _ => True

instance (c : Component) : Decidable c.Valid :=
  match c with
  | .normal name => inferInstanceAs (Decidable (ValidName name))
  | .curDir | .parentDir => isTrue trivial

structure Path where
  absolute : Bool
  components : List Component
  deriving DecidableEq

namespace Path

def parse (s : String) : Path where
  absolute := s.toList.head? = some '/'
  components := (s.toList.splitOn '/').map fun segment => .ofSegment (.ofList segment)

/-- The absolute path of some names. -/
def ofNames (names : List String) : Path where
  absolute := true
  components := names.map .normal

def join (p : Path) (name : String) : Path :=
  { p with components := p.components ++ [.normal name] }

/-- The components without the `.`s at the end. One that a relative path starts with is kept. -/
def trimmed (p : Path) : List Component :=
  match p.components.rdropWhile (· = .curDir) with
  | [] => if p.absolute then [] else p.components.take 1
  | cs => cs

/-- The path above, if there is one. -/
def parent (p : Path) : Option Path :=
  match p.trimmed with
  | [] => none
  | cs => some { p with components := trimmed { p with components := cs.dropLast } }

/-- A path that can be handed to a call: no name of it contains a zero byte. -/
def Valid (p : Path) : Prop :=
  ∀ c ∈ p.components, c.Valid

instance (p : Path) : Decidable p.Valid :=
  inferInstanceAs (Decidable (∀ c ∈ p.components, c.Valid))

end Path

/-! ## Trees -/

inductive Node
  | dir (ino : Nat)
  | file (data : List UInt8)
  | symlink (target : Path)
  | other (data : List UInt8)
  deriving DecidableEq

def Node.isDir : Node → Bool
  | .dir _ => true
  | _ => false

def Node.isSymlink : Node → Bool
  | .symlink _ => true
  | _ => false

/-- The names from the root to a place in a tree. -/
abbrev RealPath := List String

/-- What a tree has at each place, the places that it has (and maybe others), and the number for the next
    directory. Whatever there is lies in a directory. -/
structure FileTree where
  node : RealPath → Option Node
  paths : List RealPath
  nextIno : Nat
  root : ∃ ino, node [] = some (.dir ino)
  closed : ∀ q name, node (q ++ [name]) ≠ none → ∃ ino, node q = some (.dir ino)
  listed : ∀ q, node q ≠ none → q ∈ paths
  valid : ∀ q, node q ≠ none → ∀ name ∈ q, ValidName name
  fresh : ∀ q ino, node q = some (.dir ino) → ino < nextIno

namespace FileTree

variable (fs : FileTree)

def empty : FileTree where
  node q := if q = [] then some (.dir 0) else none
  paths := [[]]
  nextIno := 1
  root := ⟨0, if_pos rfl⟩
  closed q name h := by simp at h
  listed q h := by
    simp only [ne_eq, ite_eq_right_iff, reduceCtorEq, imp_false, not_not] at h
    simp [h]
  valid q h := by
    simp only [ne_eq, ite_eq_right_iff, reduceCtorEq, imp_false, not_not] at h
    simp [h]
  fresh q ino h := by
    split_ifs at h
    cases h
    exact Nat.one_pos

def isDir (q : RealPath) : Bool :=
  (fs.node q).any Node.isDir

/-- The names in a directory. -/
def children (q : RealPath) : List String :=
  (fs.paths.dedup.filter fun x => x ≠ [] ∧ x.dropLast = q ∧ (fs.node x).isSome).filterMap List.getLast?

theorem isDir_iff {q : RealPath} : fs.isDir q = true ↔ ∃ ino, fs.node q = some (.dir ino) := by
  unfold isDir
  cases h : fs.node q with
  | none => simp
  | some n => cases n <;> simp [Node.isDir]

/-! ### Changes -/

/-- A place where an entry can be made or a file replaced. -/
structure Room (q : RealPath) : Prop where
  ne : q ≠ []
  parent : fs.isDir q.dropLast = true
  notDir : fs.isDir q = false
  name : ∀ name ∈ q.getLast?, ValidName name

instance (q : RealPath) : Decidable (fs.Room q) :=
  decidable_of_iff (q ≠ [] ∧ fs.isDir q.dropLast = true ∧ fs.isDir q = false ∧
    ∀ name ∈ q.getLast?, ValidName name)
    ⟨fun h => ⟨h.1, h.2.1, h.2.2.1, h.2.2.2⟩, fun h => ⟨h.ne, h.parent, h.notDir, h.name⟩⟩

theorem Room.eq_append {q : RealPath} (h : fs.Room q) :
    ∃ d name, q = d ++ [name] ∧ ValidName name ∧ ∃ ino, fs.node d = some (.dir ino) := by
  refine ⟨q.dropLast, q.getLast h.ne, (List.dropLast_append_getLast h.ne).symm, ?_, ?_⟩
  · exact h.name _ (List.getLast?_eq_some_getLast h.ne)
  · exact fs.isDir_iff.mp h.parent

/-- The tree with another entry at a place. A new directory takes the next number. -/
def insert (q : RealPath) (n : Node) (h : fs.Room q) (hino : ∀ ino, n = .dir ino → ino = fs.nextIno) :
    FileTree where
  node x := if x = q then some n else fs.node x
  paths := fs.paths ++ [q]
  nextIno := fs.nextIno + 1
  root := by
    rw [if_neg h.ne.symm]
    exact fs.root
  closed x name hx := by
    obtain ⟨d, last, hq, -, ino, hd⟩ := h.eq_append
    have hnotDir := h.notDir
    by_cases hxq : x = q
    · rw [if_neg (by rw [hxq]; simp), hxq] at hx
      obtain ⟨ino, hdir⟩ := fs.closed q name hx
      rw [fs.isDir_iff.mpr ⟨ino, hdir⟩] at hnotDir
      cases hnotDir
    · rw [if_neg hxq]
      by_cases hnew : x ++ [name] = q
      · obtain ⟨rfl, -⟩ := List.append_inj' (hnew.trans hq) rfl
        exact ⟨ino, hd⟩
      · rw [if_neg hnew] at hx
        exact fs.closed x name hx
  listed x hx := by
    by_cases hxq : x = q
    · simp [hxq]
    · rw [if_neg hxq] at hx
      exact List.mem_append_left _ (fs.listed x hx)
  valid x hx := by
    by_cases hxq : x = q
    · obtain ⟨d, last, rfl, hlast, ino, hd⟩ := h.eq_append
      intro name hname
      rw [hxq, List.mem_append, List.mem_singleton] at hname
      rcases hname with hname | rfl
      · exact fs.valid d (by simp [hd]) name hname
      · exact hlast
    · rw [if_neg hxq] at hx
      exact fs.valid x hx
  fresh x ino hx := by
    split_ifs at hx
    · have := hino ino (Option.some.inj hx)
      omega
    · have := fs.fresh x ino hx
      omega

/-- The tree without a place and all below it. -/
def prune (q : RealPath) (h : q ≠ []) : FileTree where
  node x := if q <+: x then none else fs.node x
  paths := fs.paths
  nextIno := fs.nextIno
  root := by
    rw [if_neg (by simpa using h)]
    exact fs.root
  closed x name hx := by
    split_ifs at hx with hq
    · cases hx rfl
    · rw [if_neg fun hqx => hq (hqx.trans (List.prefix_append _ _))]
      exact fs.closed x name hx
  listed x hx := by
    split_ifs at hx
    · cases hx rfl
    · exact fs.listed x hx
  valid x hx := by
    split_ifs at hx
    · cases hx rfl
    · exact fs.valid x hx
  fresh x ino hx := by
    split_ifs at hx
    exact fs.fresh x ino hx

/-- A place that another one can be moved to. -/
structure Movable (a b : RealPath) : Prop where
  source : a ≠ []
  outside : ¬ a <+: b
  ne : b ≠ []
  parent : fs.isDir b.dropLast = true
  name : ∀ name ∈ b.getLast?, ValidName name

instance (a b : RealPath) : Decidable (fs.Movable a b) :=
  decidable_of_iff (a ≠ [] ∧ ¬ a <+: b ∧ b ≠ [] ∧ fs.isDir b.dropLast = true ∧
    ∀ name ∈ b.getLast?, ValidName name)
    ⟨fun h => ⟨h.1, h.2.1, h.2.2.1, h.2.2.2.1, h.2.2.2.2⟩,
      fun h => ⟨h.source, h.outside, h.ne, h.parent, h.name⟩⟩

/-- The tree with `a` and all below it moved to `b`, in place of what was there. -/
def move (a b : RealPath) (h : fs.Movable a b) : FileTree where
  node x :=
    if b <+: x then fs.node (a ++ x.drop b.length)
    else if a <+: x then none
    else fs.node x
  paths := fs.paths ++ (fs.paths.filter fun x => a <+: x).map fun x => b ++ x.drop a.length
  nextIno := fs.nextIno
  root := by
    rw [if_neg (by simpa using h.ne), if_neg (by simpa using h.source)]
    exact fs.root
  closed x name hx := by
    obtain ⟨ino, hparent⟩ := fs.isDir_iff.mp h.parent
    by_cases hb : b <+: x ++ [name]
    · rw [if_pos hb] at hx
      by_cases hbx : b <+: x
      · rw [if_pos hbx]
        have hlen := hbx.length_le
        rw [List.drop_append_of_le_length hlen, ← List.append_assoc] at hx
        exact fs.closed _ _ hx
      · -- `b` is the new entry itself: its directory is not moved
        have heq : b = x ++ [name] := by
          rcases List.prefix_concat_iff.mp hb with heq | hbx'
          · exact heq
          · exact absurd hbx' hbx
        have hdrop : b.dropLast = x := by rw [heq, List.dropLast_concat]
        have hax : ¬ a <+: x := fun hax => h.outside (hax.trans (heq ▸ List.prefix_append _ _))
        rw [if_neg hbx, if_neg hax, ← hdrop]
        exact ⟨ino, hparent⟩
    · rw [if_neg hb] at hx
      split_ifs at hx with ha
      · cases hx rfl
      · have hbx : ¬ b <+: x := fun hbx => hb (hbx.trans (List.prefix_append _ _))
        have hax : ¬ a <+: x := fun hax => ha (hax.trans (List.prefix_append _ _))
        rw [if_neg hbx, if_neg hax]
        exact fs.closed x name hx
  listed x hx := by
    split_ifs at hx with hb ha
    · obtain ⟨y, rfl⟩ := hb
      rw [List.drop_left] at hx
      refine List.mem_append_right _ (List.mem_map.mpr ⟨a ++ y, ?_, by rw [List.drop_left]⟩)
      rw [List.mem_filter]
      exact ⟨fs.listed _ hx, by simp⟩
    · cases hx rfl
    · exact List.mem_append_left _ (fs.listed x hx)
  valid x hx := by
    split_ifs at hx with hb ha
    · obtain ⟨y, rfl⟩ := hb
      obtain ⟨ino, hparent⟩ := fs.isDir_iff.mp h.parent
      rw [List.drop_left] at hx
      intro name hname
      rcases List.mem_append.mp hname with hname | hname
      · rw [← List.dropLast_append_getLast h.ne, List.mem_append, List.mem_singleton] at hname
        rcases hname with hname | rfl
        · exact fs.valid b.dropLast (by simp [hparent]) name hname
        · exact h.name _ (List.getLast?_eq_some_getLast h.ne)
      · exact fs.valid _ hx name (List.mem_append_right _ hname)
    · cases hx rfl
    · exact fs.valid x hx
  fresh x ino hx := by
    split_ifs at hx
    · exact fs.fresh _ ino hx
    · exact fs.fresh x ino hx

end FileTree

end Posix
