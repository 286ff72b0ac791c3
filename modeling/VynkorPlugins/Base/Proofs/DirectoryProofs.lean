import VynkorPlugins.Base.Proofs.FileTreeProofs
import VynkorPlugins.Base.Rust

/-!
# Proofs: directories made along a path

What `create_dir_all` leaves behind, whichever of its calls fail: new directories at the end of the way that
the path has already.
-/

namespace Posix

open Hoare

namespace FileTree

variable {fs fs' fs₀ : FileTree} {cwd root q t : RealPath} {p above : Path} {name : String}
  {cs ds : List Component} {n k : Nat}

/-! ## Paths and the paths above -/

/-- Only `.`s. -/
def Dots (cs : List Component) : Prop :=
  ∀ c ∈ cs, c = .curDir

theorem components_eq_trimmed (p : Path) : ∃ ds, p.components = p.trimmed ++ ds ∧ Dots ds := by
  have hdrop := List.rdropWhile_append_rtakeWhile (p := (· = Component.curDir)) (l := p.components)
  have hdots : Dots (p.components.rtakeWhile (· = .curDir)) := by
    intro c hc
    simpa using List.mem_rtakeWhile_imp hc
  unfold Path.trimmed
  cases hr : p.components.rdropWhile (· = .curDir) with
  | cons c cs =>
    rw [hr] at hdrop
    exact ⟨_, hdrop.symm, hdots⟩
  | nil =>
    rw [hr, List.nil_append] at hdrop
    rw [hdrop] at hdots
    dsimp only
    split_ifs
    · exact ⟨p.components, rfl, hdots⟩
    · exact ⟨p.components.drop 1, (List.take_append_drop 1 _).symm,
        fun c hc => hdots c (List.mem_of_mem_drop hc)⟩

theorem trimmed_getLast (h : p.trimmed = cs ++ [.curDir]) : cs = [] ∧ p.absolute = false := by
  unfold Path.trimmed at h
  cases hr : p.components.rdropWhile (· = .curDir) with
  | nil =>
    rw [hr] at h
    dsimp only at h
    split_ifs at h with habs
    · simp at h
    · refine ⟨?_, by simpa using habs⟩
      have hlen := congrArg List.length h
      simp only [List.length_take, List.length_append, List.length_singleton] at hlen
      exact List.length_eq_zero_iff.mp (by omega)
  | cons c cs' =>
    rw [hr] at h
    dsimp only at h
    have hlast := List.rdropWhile_last_not (· = Component.curDir) p.components (by simp [hr])
    simp [hr, h] at hlast

theorem trimmed_of_name (hp : p.components = cs ++ .normal name :: ds) :
    p.trimmed = cs ++ .normal name :: ds.rdropWhile (· = .curDir) := by
  have hdrop : p.components.rdropWhile (· = .curDir) = cs ++ .normal name :: ds.rdropWhile (· = .curDir) := by
    rw [hp, List.rdropWhile, List.rdropWhile, List.reverse_append, List.reverse_cons, List.append_assoc,
      List.dropWhile_append]
    split_ifs with hnil
    · rw [List.isEmpty_iff.mp hnil]
      simp
    · simp
  unfold Path.trimmed
  rw [hdrop]
  split
  · rename_i hnil
    simp at hnil
  · rfl

theorem trimmed_idempotent (p : Path) :
    Path.trimmed { p with components := p.trimmed } = p.trimmed := by
  have hidem := List.rdropWhile_idempotent (· = Component.curDir) p.components
  cases hr : p.components.rdropWhile (· = .curDir) with
  | cons c cs =>
    rw [hr] at hidem
    have htrimmed : p.trimmed = c :: cs := by
      unfold Path.trimmed
      rw [hr]
    rw [htrimmed]
    unfold Path.trimmed
    dsimp only
    rw [hidem]
  | nil =>
    have hdots : ∀ c ∈ p.components, c = .curDir := by
      simpa using List.rdropWhile_eq_nil_iff.mp hr
    have htrimmed : p.trimmed = if p.absolute then [] else p.components.take 1 := by
      unfold Path.trimmed
      rw [hr]
    have hnil : (if p.absolute then [] else p.components.take 1).rdropWhile (· = .curDir) = [] := by
      rw [List.rdropWhile_eq_nil_iff]
      intro c hc
      split_ifs at hc
      · cases hc
      · simpa using hdots c (List.mem_of_mem_take hc)
    rw [htrimmed]
    unfold Path.trimmed
    dsimp only
    rw [hnil]
    split_ifs
    · rfl
    · exact List.take_take

theorem trimmed_eq_nil (h : p.trimmed = []) (habsolute : p.absolute = false) : p.components = [] := by
  unfold Path.trimmed at h
  cases hr : p.components.rdropWhile (· = .curDir) with
  | cons c cs =>
    rw [hr] at h
    cases h
  | nil =>
    rw [hr, habsolute] at h
    simpa using h

theorem parent_eq_trimmed (h : p.parent = some above) :
    ∃ cs c, p.trimmed = cs ++ [c] ∧ above = { p with components := Path.trimmed { p with components := cs } } := by
  unfold Path.parent at h
  rcases List.eq_nil_or_concat' p.trimmed with hnil | ⟨cs, c, hcs⟩
  · rw [hnil] at h
    cases h
  · refine ⟨cs, c, hcs, ?_⟩
    rw [hcs] at h
    split at h
    · cases h
    · rw [List.dropLast_concat] at h
      exact (Option.some.inj h).symm

/-- A path is the one above it, a last component and `.`s. -/
theorem parent_eq_some (h : p.parent = some above) :
    above.absolute = p.absolute ∧ ∃ ds c es, p.components = above.components ++ ds ++ c :: es ∧
      Dots ds ∧ Dots es ∧ (c = .curDir → above.components = [] ∧ p.absolute = false) := by
  obtain ⟨es, hes, hdots⟩ := components_eq_trimmed p
  obtain ⟨cs, c, hcs, rfl⟩ := parent_eq_trimmed h
  obtain ⟨ds, hds, hdots'⟩ := components_eq_trimmed { p with components := cs }
  dsimp only at hds ⊢
  refine ⟨rfl, ds, c, es, ?_, hdots', hdots, ?_⟩
  · rw [hes, hcs, ← hds, List.append_assoc]
    rfl
  · rintro rfl
    obtain ⟨rfl, habsolute⟩ := trimmed_getLast hcs
    exact ⟨(List.nil_eq_append_iff.mp hds).1, habsolute⟩

/-- A path with a name at its end has one above it. -/
theorem parent_concat (hp : p.components = cs ++ [.normal name]) :
    p.parent = some { p with components := Path.trimmed { p with components := cs } } := by
  have htrimmed : p.trimmed = cs ++ [.normal name] :=
    trimmed_of_name (show p.components = cs ++ .normal name :: [] from hp)
  unfold Path.parent
  rw [htrimmed]
  split
  · rename_i hnil
    simp at hnil
  · rw [List.dropLast_concat]

theorem parent_trimmed (h : p.parent = some above) : above.trimmed = above.components := by
  obtain ⟨cs, c, -, rfl⟩ := parent_eq_trimmed h
  exact trimmed_idempotent { p with components := cs }

theorem parent_of_name (hp : p.components = cs ++ .normal name :: ds) (hds : ds ≠ [])
    (htrimmed : p.trimmed = p.components) :
    ∃ ds', p.parent = some { p with components := cs ++ .normal name :: ds' } ∧
      ds'.length < ds.length ∧ ds'.rdropWhile (· = .curDir) = ds' := by
  obtain ⟨ds, c, rfl⟩ := (List.eq_nil_or_concat' ds).resolve_left hds
  have hinit : p.components.dropLast = cs ++ .normal name :: ds := by
    rw [hp, ← List.cons_append, ← List.append_assoc, List.dropLast_concat]
  refine ⟨ds.rdropWhile (· = .curDir), ?_, ?_, List.rdropWhile_idempotent _ _⟩
  · unfold Path.parent
    rw [htrimmed]
    split
    · rename_i hnil
      rw [hp] at hnil
      simp at hnil
    · rw [hinit, trimmed_of_name (p := { p with components := cs ++ .normal name :: ds }) rfl]
  · have hle := (List.rdropWhile_prefix (· = Component.curDir) (l := ds)).length_le
    rw [List.length_append, List.length_singleton]
    omega

theorem parent_prefix (h : p.parent = some above) :
    above.absolute = p.absolute ∧ ∃ rest, p.components = above.components ++ rest ∧ rest ≠ [] := by
  obtain ⟨habsolute, ds, c, es, heq, -⟩ := parent_eq_some h
  exact ⟨habsolute, ds ++ c :: es, by rw [heq, List.append_assoc], by simp⟩

/-! ## Ends of ways -/

/-- A path has a way, and this is where it ends. -/
def LeadsTo (fs : FileTree) (cwd : RealPath) (p : Path) (q : RealPath) : Prop :=
  ∃ k, Way fs MAXSYMLINKS (origin cwd p) p.components q k

theorem LeadsTo.unique {q' : RealPath} (h : LeadsTo fs cwd p q) (h' : LeadsTo fs cwd p q') : q = q' := by
  obtain ⟨k, h⟩ := h
  obtain ⟨k', h'⟩ := h'
  exact (h.unique h').1

theorem LeadsTo.mono (hle : Sub fs fs') (h : LeadsTo fs cwd p q) (hq : fs.node q ≠ none) :
    LeadsTo fs' cwd p q := by
  obtain ⟨k, h⟩ := h
  exact ⟨k, h.mono hle hq⟩

theorem way_dots {ino : Nat} (ht : fs.node t = some (.dir ino)) (hds : Dots ds) (n : Nat) :
    Way fs n t ds t n := by
  induction ds with
  | nil => exact .stay
  | cons c ds ih =>
    obtain rfl := hds c (by simp)
    exact .curDir ht (ih fun c hc => hds c (List.mem_cons_of_mem _ hc))

theorem Way.dots (h : Way fs n q ds t k) (hds : Dots ds) : t = q ∧ k = n := by
  induction h with
  | stay => exact ⟨rfl, rfl⟩
  | curDir _ _ ih => exact ih fun c hc => hds c (List.mem_cons_of_mem _ hc)
  | parentDir | entry | link => cases hds _ List.mem_cons_self

/-- `.`s at the end of a way to a directory change nothing. -/
theorem Way.append_dots {ino : Nat} (ht : fs.node t = some (.dir ino)) (hds : Dots ds) :
    Way fs n q (cs ++ ds) t k ↔ Way fs n q cs t k := by
  constructor
  · intro h
    obtain ⟨t', k', hway, hrest⟩ := h.split
    obtain ⟨rfl, rfl⟩ := hrest.dots hds
    exact hway
  · intro h
    exact h.append (way_dots ht hds k)

/-- A way whose last component is no name ends at a directory. -/
theorem Way.isDir_end {c : Component} (h : Way fs n q (cs ++ [c]) t k) (hc : ∀ name, c ≠ .normal name) :
    fs.isDir t = true := by
  obtain ⟨t', k', -, hlast⟩ := h.split
  cases hlast with
  | curDir hdir hstay =>
    cases hstay
    exact fs.isDir_iff.mpr ⟨_, hdir⟩
  | parentDir hdir hstay =>
    cases hstay
    exact fs.isDir_iff.mpr (dir_dropLast hdir)
  | entry => exact absurd rfl (hc _)
  | link => exact absurd rfl (hc _)

theorem follow_eq_ok :
    fs.follow cwd p = .ok q ↔
      ¬ (¬ p.absolute = true ∧ p.components = []) ∧ p.Valid ∧ LeadsTo fs cwd p q := by
  unfold follow
  split_ifs with hempty hvalid
  · simp [hempty]
  · constructor
    · intro h
      obtain ⟨r, hw, rfl⟩ := Rust.map_eq_ok.mp h
      exact ⟨hempty, hvalid, r.2, way_of_walk hw⟩
    · rintro ⟨-, -, k, h⟩
      rw [walk_of_way h]
      rfl
  · simp [hvalid]

theorem stat_eq_ok {e : Node} :
    fs.stat cwd p = .ok (q, e) ↔
      ¬ (¬ p.absolute = true ∧ p.components = []) ∧ LeadsTo fs cwd p q ∧ fs.node q = some e := by
  rw [stat, existing_eq_ok, follow_eq_ok]
  constructor
  · rintro ⟨⟨hempty, -, hlead⟩, hq⟩
    exact ⟨hempty, hlead, hq⟩
  · rintro ⟨hempty, ⟨k, hway⟩, hq⟩
    exact ⟨⟨hempty, hway.valid (by simp [hq]), k, hway⟩, hq⟩

theorem canonicalize_eq_ok :
    fs.canonicalize cwd p = .ok q ↔
      ¬ (¬ p.absolute = true ∧ p.components = []) ∧ LeadsTo fs cwd p q ∧ fs.node q ≠ none := by
  constructor
  · intro h
    obtain ⟨⟨q', e⟩, hstat, rfl⟩ := Rust.map_eq_ok.mp h
    obtain ⟨hempty, hlead, hq⟩ := stat_eq_ok.mp hstat
    exact ⟨hempty, hlead, by simp [hq]⟩
  · rintro ⟨hempty, hlead, hq⟩
    obtain ⟨e, he⟩ := Option.ne_none_iff_exists'.mp hq
    exact Rust.map_eq_ok.mpr ⟨(q, e), stat_eq_ok.mpr ⟨hempty, hlead, he⟩, rfl⟩

/-- The place that a path with a name at its end names. -/
theorem place_eq_ok (hp : p.components = cs ++ [.normal name]) :
    fs.place cwd p = .ok q ↔
      p.Valid ∧ ∃ d k ino, Way fs MAXSYMLINKS (origin cwd p) cs d k ∧ fs.node d = some (.dir ino) ∧
        q = d ++ [name] := by
  unfold place
  rw [hp, List.getLast?_concat, List.dropLast_concat]
  dsimp only
  by_cases hvalid : p.Valid
  · rw [if_pos hvalid]
    constructor
    · intro h
      split at h
      · cases h
      · rename_i d k hw
        split at h
        · exact ⟨hvalid, d, k, _, way_of_walk hw, ‹_›, (Except.ok.inj h).symm⟩
        · cases h
        · cases h
    · rintro ⟨-, d, k, ino, hway, hdir, rfl⟩
      rw [walk_of_way hway]
      dsimp only
      rw [hdir]
  · rw [if_neg hvalid]
    simp [hvalid]

/-- A path without a name at its end names where it leads to. -/
theorem place_eq_follow (hp : ∀ cs name, p.components ≠ cs ++ [.normal name]) :
    fs.place cwd p = fs.follow cwd p := by
  unfold place
  split
  · rename_i name hlast
    obtain ⟨cs, hcs⟩ := List.getLast?_eq_some_iff.mp hlast
    exact absurd hcs (hp cs name)
  · rfl

/-- A path without a name at its end leads to a directory. -/
theorem isDir_of_place (hp : ∀ cs name, p.components ≠ cs ++ [.normal name])
    (hplace : fs.place cwd p = .ok q) : fs.isDir q = true := by
  rw [place_eq_follow hp] at hplace
  obtain ⟨hempty, -, k, hway⟩ := follow_eq_ok.mp hplace
  rcases List.eq_nil_or_concat' p.components with hnil | ⟨cs, c, hcs⟩
  · rw [hnil] at hway
    obtain ⟨rfl, -⟩ := hway.dots nofun
    have habsolute : p.absolute = true := by
      by_contra habsolute
      exact hempty ⟨habsolute, hnil⟩
    rw [origin, if_pos habsolute]
    exact fs.isDir_iff.mpr fs.root
  · rw [hcs] at hway
    exact hway.isDir_end fun name hc => hp cs name (hc ▸ hcs)

/-- What leads somewhere names something. -/
theorem place_of_stat {e : Node} (h : fs.stat cwd p = .ok (q, e)) :
    ∃ x, fs.place cwd p = .ok x ∧ fs.node x ≠ none := by
  obtain ⟨hempty, ⟨k, hway⟩, hq⟩ := stat_eq_ok.mp h
  have hvalid : p.Valid := hway.valid (by simp [hq])
  by_cases hp : ∃ cs name, p.components = cs ++ [.normal name]
  · obtain ⟨cs, name, hp⟩ := hp
    rw [hp] at hway
    obtain ⟨d, k', hd, hlast⟩ := hway.split
    cases hlast with
    | entry hdir _ hstay =>
      cases hstay
      exact ⟨_, (place_eq_ok hp).mpr ⟨hvalid, d, _, _, hd, hdir, rfl⟩, by simp [hq]⟩
    | link hdir hlink _ =>
      exact ⟨_, (place_eq_ok hp).mpr ⟨hvalid, d, _, _, hd, hdir, rfl⟩, by simp [hlink]⟩
  · push Not at hp
    refine ⟨q, ?_, by simp [hq]⟩
    rw [place_eq_follow hp]
    exact follow_eq_ok.mpr ⟨hempty, hvalid, k, hway⟩

/-! ## Ways that go on -/

/-- What a walk makes of the rest of its components depends on where it is. -/
theorem walk_append (h : Way fs n q cs t k) (ds : List Component) :
    fs.walk n q (cs ++ ds) = fs.walk k t ds := by
  induction h with
  | stay => rfl
  | curDir hdir _ ih => rw [List.cons_append, walk_curDir hdir, ih]
  | parentDir hdir _ ih => rw [List.cons_append, walk_parentDir hdir, ih]
  | entry hdir hentry _ ih => rw [List.cons_append, walk_entry hdir hentry, ih]
  | @link n q name cs t k ino target hdir hlink h ih =>
    rw [← ih, walk_succ, List.cons_append, walkWith_link hdir hlink, List.append_assoc]

/-- A walk does not go on from a place where there is nothing. -/
theorem walk_missing {ino : Nat} (h : Way fs n q cs t k) (hdir : fs.node t = some (.dir ino))
    (hnone : fs.node (t ++ [name]) = none) (hds : ds ≠ []) :
    fs.walk n q (cs ++ .normal name :: ds) = .error .notFound := by
  obtain ⟨c, ds, rfl⟩ := List.exists_cons_of_ne_nil hds
  have hentry (target : Path) : fs.node (t ++ [name]) ≠ some (.symlink target) := by
    rw [hnone]
    nofun
  rw [walk_append h, walk_entry hdir hentry]
  exact walk_none hnone

/-- The directory after a missing one cannot be made. -/
theorem mkdir_missing {ino : Nat} (hp : p.components = cs ++ .normal name :: ds) (hds : ds ≠ [])
    (hvalid : p.Valid) (h : Way fs MAXSYMLINKS (origin cwd p) cs t k)
    (hdir : fs.node t = some (.dir ino)) (hnone : fs.node (t ++ [name]) = none) :
    fs.mkdir cwd p = .error .notFound := by
  have hplace : fs.place cwd p = .error .notFound := by
    obtain ⟨ds, c, rfl⟩ := (List.eq_nil_or_concat' ds).resolve_left hds
    rw [← List.cons_append, ← List.append_assoc] at hp
    by_cases hc : ∃ name', c = .normal name'
    · obtain ⟨name', rfl⟩ := hc
      unfold place
      rw [hp, List.getLast?_concat, List.dropLast_concat]
      dsimp only
      rw [if_pos hvalid]
      by_cases hnil : ds = []
      · -- the name above is the missing one
        have hentry : ∀ target, fs.node (t ++ [name]) ≠ some (.symlink target) := by simp [hnone]
        have hway : Way fs k t [.normal name] (t ++ [name]) k := .entry hdir hentry .stay
        rw [hnil, walk_append h, walk_of_way hway]
        dsimp only
        rw [hnone]
      · rw [walk_missing h hdir hnone hnil]
    · rw [place_eq_follow fun cs' name' hcs => ?_]
      · unfold follow
        rw [if_neg (by simp [hp]), if_pos hvalid, hp, List.append_assoc, List.cons_append,
          walk_missing h hdir hnone (by simp)]
        rfl
      · rw [hp] at hcs
        obtain ⟨-, hlast⟩ := List.append_inj' hcs rfl
        exact hc ⟨name', List.head_eq_of_cons_eq hlast⟩
  unfold mkdir
  rw [hplace]

/-- A missing entry of a directory can be made. -/
theorem mkdir_room {ino : Nat} (hp : p.components = cs ++ [.normal name]) (hvalid : p.Valid)
    (h : Way fs MAXSYMLINKS (origin cwd p) cs t k) (hdir : fs.node t = some (.dir ino))
    (hnone : fs.node (t ++ [name]) = none) :
    ∃ fs', fs.mkdir cwd p = .ok (t ++ [name], fs') := by
  have hplace : fs.place cwd p = .ok (t ++ [name]) := (place_eq_ok hp).mpr
    ⟨hvalid, t, k, ino, h, hdir, rfl⟩
  have hname : ValidName name := hvalid (.normal name) (by simp [hp])
  have hroom : fs.Room (t ++ [name]) := by
    refine ⟨by simp, ?_, by simp [isDir, hnone], by simpa using hname⟩
    rw [List.dropLast_concat]
    exact fs.isDir_iff.mpr ⟨ino, hdir⟩
  unfold mkdir
  rw [hplace]
  dsimp only
  rw [if_neg (by simp [hnone]), dif_pos hroom]
  exact ⟨_, rfl⟩

/-! ## One new directory -/

/-- Where nothing was, a directory is made: the path has a name at its end, and its way gets to the directory
    above. -/
theorem mkdir_eq_ok (h : fs.mkdir cwd p = .ok (q, fs')) :
    ∃ cs name d k ino, p.components = cs ++ [.normal name] ∧
      Way fs MAXSYMLINKS (origin cwd p) cs d k ∧ fs.node d = some (.dir ino) ∧ q = d ++ [name] := by
  obtain ⟨hplace, hnone, -⟩ := mkdir_ok h
  by_cases hp : ∃ cs name, p.components = cs ++ [.normal name]
  · obtain ⟨cs, name, hp⟩ := hp
    obtain ⟨-, d, k, ino, hway, hdir, rfl⟩ := (place_eq_ok hp).mp hplace
    exact ⟨cs, name, d, k, ino, hp, hway, hdir, rfl⟩
  · push Not at hp
    have hdir := isDir_of_place hp hplace
    rw [isDir, hnone] at hdir
    cases hdir

/-- The tree has got no more than directories inside of `root`. -/
def Grown (root : RealPath) (fs fs' : FileTree) : Prop :=
  ∀ x, fs'.node x = fs.node x ∨
    fs.node x = none ∧ root <+: x ∧ ∃ ino, fs'.node x = some (.dir ino)

theorem Grown.refl : Grown root fs fs := fun _ => .inl rfl

theorem Grown.sub (h : Grown root fs fs') : Sub fs fs' := by
  intro x e hx
  rcases h x with heq | ⟨hnone, -⟩
  · exact heq.trans hx
  · rw [hnone] at hx
    cases hx

theorem Grown.mkdir {fs₁ : FileTree} (hgrown : Grown root fs₀ fs₁) (h : fs₁.mkdir cwd p = .ok (q, fs'))
    (hq : root <+: q) : Grown root fs₀ fs' := by
  obtain ⟨-, hnone, hnode⟩ := mkdir_ok h
  intro x
  rw [hnode]
  split_ifs with hx
  · rw [hx]
    refine .inr ⟨?_, hq, _, rfl⟩
    rcases hgrown q with heq | ⟨hnone', -⟩
    · rw [← heq, hnone]
    · exact hnone'
  · exact hgrown x

/-- The path leads to a directory inside of `root` that is new, with nothing in it yet. -/
structure Fresh (root : RealPath) (fs₀ : FileTree) (cwd : RealPath) (p : Path) (fs : FileTree)
    (q : RealPath) : Prop where
  leads : LeadsTo fs cwd p q
  dir : fs.isDir q = true
  empty : ∀ name, fs.node (q ++ [name]) = none
  new : fs₀.node q = none
  inside : root <+: q

/-- A path gets through another one to each place that it goes on to. -/
theorem LeadsTo.through (h : LeadsTo fs cwd p t) (habove : LeadsTo fs cwd above q)
    (habsolute : above.absolute = p.absolute) (hp : p.components = above.components ++ cs) :
    ∃ k k', Way fs k q cs t k' := by
  obtain ⟨k', hway⟩ := h
  obtain ⟨k, habove⟩ := habove
  rw [hp] at hway
  obtain ⟨q', k₁, hway, hrest⟩ := hway.split
  rw [show origin cwd p = origin cwd above by simp [origin, habsolute]] at hway
  obtain ⟨rfl, rfl⟩ := hway.unique habove
  exact ⟨k₁, k', hrest⟩

/-- What the tree may be when a directory is made at the end of a path: as it was, or with a new directory at
    the end of the path above. -/
def Ready (root : RealPath) (fs₀ : FileTree) (cwd : RealPath) (p : Path) (fs : FileTree) : Prop :=
  fs = fs₀ ∨ ∃ above d, p.parent = some above ∧ Fresh root fs₀ cwd above fs d

theorem Ready.mkdir {fs₁ : FileTree} (hmissing : fs₀.MissingInside cwd root p)
    (hgrown : Grown root fs₀ fs₁) (hready : Ready root fs₀ cwd p fs₁)
    (h : fs₁.mkdir cwd p = .ok (q, fs')) :
    Grown root fs₀ fs' ∧ Fresh root fs₀ cwd p fs' q := by
  obtain ⟨cs, name, d, k, ino, hp, hway, hdir, rfl⟩ := mkdir_eq_ok h
  obtain ⟨-, hnone, hnode⟩ := mkdir_ok h
  have hempty (x : String) : fs₁.node (d ++ [name] ++ [x]) = none := by
    by_contra hsome
    obtain ⟨ino', hdir'⟩ := fs₁.closed _ x hsome
    rw [hnone] at hdir'
    cases hdir'
  have hd : root <+: d := by
    rcases hready with rfl | ⟨above, d', habove, hfresh⟩
    · exact hmissing cs name [] hp d k (walk_of_way hway) (fs₁.isDir_iff.mpr ⟨ino, hdir⟩) hnone
    · -- the way of the path above ends at the new directory
      obtain ⟨habsolute, ds, c, es, heq, hds, hes, -⟩ := parent_eq_some habove
      obtain rfl : es = [] := by
        rcases List.eq_nil_or_concat' es with hnil | ⟨es, e, rfl⟩
        · exact hnil
        · rw [hp, ← List.cons_append, ← List.append_assoc] at heq
          obtain ⟨-, hlast⟩ := List.append_inj' heq rfl
          obtain rfl := hes e (by simp)
          cases hlast
      obtain ⟨rfl, -⟩ := List.append_inj' (hp.symm.trans heq) rfl
      obtain rfl : d = d' := by
        have hway' := (Way.append_dots hdir hds).mp hway
        rw [show origin cwd p = origin cwd above by simp [origin, habsolute]] at hway'
        exact LeadsTo.unique ⟨k, hway'⟩ hfresh.leads
      exact hfresh.inside
  have hq : root <+: d ++ [name] := hd.trans (List.prefix_append _ _)
  refine ⟨hgrown.mkdir h hq, ⟨⟨k, ?_⟩, ?_, fun x => ?_, ?_, hq⟩⟩
  · rw [hp]
    refine (hway.mono (mkdir_sub h) (by simp [hdir])).append
      (.entry (mkdir_sub h _ _ hdir) (fun target => ?_) .stay)
    simp [hnode]
  · exact fs'.isDir_iff.mpr ⟨_, by rw [hnode, if_pos rfl]⟩
  · rw [hnode, if_neg (by simp), hempty]
  · by_contra hsome
    obtain ⟨e, he⟩ := Option.ne_none_iff_exists'.mp hsome
    have hsame := hgrown.sub _ _ he
    rw [hnone] at hsame
    cases hsame

/-- A path that the tree can be asked for: it starts at something, and so does each `..` of it. -/
structure Grounded (fs : FileTree) (cwd : RealPath) (p : Path) : Prop where
  start : fs.node (origin cwd p) ≠ none
  back : ∀ cs ds, p.components = cs ++ .parentDir :: ds →
    ∃ q k, Way fs MAXSYMLINKS (origin cwd p) cs q k ∧ fs.node q ≠ none

theorem Grounded.of_parent (h : Grounded fs cwd p) (habove : p.parent = some above) :
    Grounded fs cwd above := by
  obtain ⟨habsolute, rest, heq, -⟩ := parent_prefix habove
  have horigin : origin cwd above = origin cwd p := by simp [origin, habsolute]
  refine ⟨horigin ▸ h.start, fun cs ds hcs => ?_⟩
  rw [horigin]
  exact h.back cs (ds ++ rest) (by rw [heq, hcs, List.append_assoc]; rfl)

theorem MissingInside.of_parent (h : fs.MissingInside cwd root p) (habove : p.parent = some above) :
    fs.MissingInside cwd root above := by
  obtain ⟨habsolute, rest, heq, -⟩ := parent_prefix habove
  have horigin : origin cwd above = origin cwd p := by simp [origin, habsolute]
  intro cs name ds hcs
  rw [horigin]
  exact h cs name (ds ++ rest) (by rw [heq, hcs, List.append_assoc]; rfl)

/-- Where a path goes on from a new directory there is nothing. -/
theorem Fresh.leads_nowhere {fs₁ : FileTree} {d : RealPath} (hgrounded : Grounded fs₀ cwd p)
    (hgrown : Grown root fs₀ fs₁) (habove : p.parent = some above)
    (hfresh : Fresh root fs₀ cwd above fs₁ d) (hlead : LeadsTo fs₁ cwd p t) : fs₁.node t = none := by
  obtain ⟨habsolute, ds, c, es, heq, hds, hes, hdot⟩ := parent_eq_some habove
  have horigin : origin cwd above = origin cwd p := by simp [origin, habsolute]
  obtain ⟨ino, hdir⟩ := fs₁.isDir_iff.mp hfresh.dir
  obtain ⟨k, k', hway⟩ := hlead.through hfresh.leads habsolute
    (heq.trans (List.append_assoc _ _ _))
  obtain ⟨d', k₁, hstay, hrest⟩ := hway.split
  obtain ⟨rfl, rfl⟩ := hstay.dots hds
  by_contra ht
  cases c with
  | curDir =>
    obtain ⟨hnil, -⟩ := hdot rfl
    obtain ⟨k₂, hway⟩ := hfresh.leads
    rw [hnil] at hway
    obtain ⟨rfl, -⟩ := hway.dots nofun
    exact hgrounded.start (horigin ▸ hfresh.new)
  | parentDir =>
    obtain ⟨q, k₂, hback, hq⟩ := hgrounded.back _ es heq
    obtain ⟨k₃, habove'⟩ := hfresh.leads
    have hway' := (Way.append_dots hdir hds).mpr habove'
    rw [horigin] at hway'
    obtain ⟨rfl, -⟩ := (hback.mono hgrown.sub hq).unique hway'
    exact hq hfresh.new
  | normal name =>
    cases hrest with
    | entry _ _ hrest => exact hrest.start ht (hfresh.empty name)
    | link _ hlink _ =>
      rw [hfresh.empty] at hlink
      cases hlink

/-! ## Files -/

/-- A way depends on the directories and the links only. -/
theorem Way.congr (h : Way fs n q cs t k)
    (hdir : ∀ x ino, fs.node x = some (.dir ino) → fs'.node x = some (.dir ino))
    (hlink : ∀ x target, fs'.node x = some (.symlink target) ↔ fs.node x = some (.symlink target)) :
    Way fs' n q cs t k := by
  induction h with
  | stay => exact .stay
  | curDir hd _ ih => exact .curDir (hdir _ _ hd) ih
  | parentDir hd _ ih => exact .parentDir (hdir _ _ hd) ih
  | entry hd hentry _ ih =>
    exact .entry (hdir _ _ hd) (fun target => mt (hlink _ _).mp (hentry target)) ih
  | link hd hl _ ih => exact .link (hdir _ _ hd) ((hlink _ _).mpr hl) ih

/-- Data goes to a file or to a new one. A device or a pipe takes it. -/
theorem setFile_eq_ok {data : List UInt8} (h : fs.setFile q data = .ok fs') :
    (∃ d, fs.node q = some (.other d)) ∧ fs' = fs ∨
      (fs.node q = none ∨ ∃ d, fs.node q = some (.file d)) ∧
        ∀ x, fs'.node x = if x = q then some (.file data) else fs.node x := by
  unfold setFile at h
  cases hq : fs.node q with
  | none =>
    rw [hq] at h
    dsimp only at h
    split_ifs at h
    obtain rfl := Except.ok.inj h
    exact .inr ⟨.inl rfl, fun x => node_insert⟩
  | some e =>
    rw [hq] at h
    cases e with
    | dir ino => cases h
    | symlink t => cases h
    | other d => exact .inl ⟨⟨d, rfl⟩, (Except.ok.inj h).symm⟩
    | file d =>
      dsimp only at h
      split_ifs at h
      obtain rfl := Except.ok.inj h
      exact .inr ⟨.inr ⟨d, rfl⟩, fun x => node_insert⟩

/-- New data in a file leaves the ways as they were. -/
theorem LeadsTo.setFile {data : List UInt8} {x : RealPath} (h : LeadsTo fs cwd p q)
    (hx : fs.node x = none ∨ ∃ d, fs.node x = some (.file d))
    (hnode : ∀ y, fs'.node y = if y = x then some (.file data) else fs.node y) :
    LeadsTo fs' cwd p q := by
  obtain ⟨k, h⟩ := h
  refine ⟨k, h.congr (fun y ino hy => ?_) fun y target => ?_⟩
  · rw [hnode, if_neg]
    · exact hy
    · rintro rfl
      rcases hx with hx | ⟨d, hx⟩ <;>
      · rw [hx] at hy
        cases hy
  · rw [hnode]
    split_ifs with hy
    · rw [hy]
      rcases hx with hx | ⟨d, hx⟩ <;> simp [hx]
    · rfl

end FileTree

/-! ## Calls -/

variable {L α : Type}

/-- A world whose calls fail as `faults` tells and start at `cwd`, and whose tree has a property. -/
structure At (faults : Nat → Option IoError) (cwd : RealPath) (I : FileTree → Prop) (w : World L) :
    Prop where
  fault : w.fault = faults
  cwd : w.cwd = cwd
  tree : I w.fs

/-- A call can fail for a reason outside of the tree. -/
def Faulty (faults : Nat → Option IoError) : Prop :=
  ∃ n, faults n ≠ none

variable {faults : Nat → Option IoError} {cwd root : RealPath} {I J : FileTree → Prop}
  {fs₀ fs₁ : FileTree}

theorem faults_eq (h : ¬ Faulty faults) : faults = fun _ => none := by
  funext n
  by_contra hn
  exact h ⟨n, hn⟩

theorem not_faulty : ¬ Faulty fun _ => none := fun ⟨_, hn⟩ => hn rfl

namespace At

theorem imp {w : World L} (h : At faults cwd I w) (hI : ∀ fs, I fs → J fs) : At faults cwd J w :=
  ⟨h.fault, h.cwd, hI _ h.tree⟩

/-- What holds behind a call, in terms of what the call does to the tree. -/
theorem call {f : FileTree → RealPath → Except IoError (α × FileTree × List (L × RealPath))}
    {J : α → FileTree → Prop}
    (h : ∀ fs a fs' acted, I fs → f fs cwd = .ok (a, fs', acted) → J a fs') :
    Triple (At faults cwd I) (Posix.call f) (fun a => At faults cwd (J a))
      fun e => At faults cwd fun fs => I fs ∧ (Faulty faults ∨ f fs cwd = .error e) := by
  intro w hw
  unfold Posix.call
  cases hfault : w.fault w.calls with
  | some e =>
    refine ⟨hw.fault, hw.cwd, hw.tree, .inl ⟨w.calls, ?_⟩⟩
    rw [← hw.fault, hfault]
    simp
  | none =>
    dsimp only
    rw [hw.cwd]
    cases hf : f w.fs cwd with
    | error e => exact ⟨hw.fault, hw.cwd, hw.tree, .inr hf⟩
    | ok r => exact ⟨hw.fault, hw.cwd, h _ _ _ _ hw.tree hf⟩

theorem look {f : FileTree → RealPath → Except IoError α} :
    Triple (At faults cwd I) (Fs.look f : Io L α)
      (fun a => At faults cwd fun fs => I fs ∧ f fs cwd = .ok a)
      fun e => At faults cwd fun fs => I fs ∧ (Faulty faults ∨ f fs cwd = .error e) := by
  refine (At.call (J := fun a fs => I fs ∧ f fs cwd = .ok a) fun fs a fs' acted hI hf => ?_).weaken
    (fun _ hw => hw) (fun _ _ hQ => hQ) fun e w hE => hE.imp fun fs h => ⟨h.1, h.2.imp_right fun he => ?_⟩
  · obtain ⟨a', hr, heq⟩ := Rust.map_eq_ok.mp hf
    obtain ⟨rfl, hrest⟩ := Prod.mk.inj heq
    obtain ⟨rfl, -⟩ := Prod.mk.inj hrest
    exact ⟨hI, hr⟩
  · cases hr : f fs cwd with
    | error e' =>
      rw [hr] at he
      obtain rfl : e' = e := Except.error.inj he
      rfl
    | ok a =>
      rw [hr] at he
      cases he

/-- Where no call fails for other reasons, a call does what the tree tells. -/
theorem call_eq {f : FileTree → RealPath → Except IoError (α × FileTree × List (L × RealPath))}
    {a : α} {acted : List (L × RealPath)} (hfaults : ¬ Faulty faults)
    (hf : f fs₀ cwd = .ok (a, fs₁, acted)) :
    Triple (At faults cwd (· = fs₀)) (Posix.call f)
      (fun r w => At faults cwd (· = fs₁) w ∧ r = a) fun _ _ => False := by
  refine (At.call (J := fun r fs => fs = fs₁ ∧ r = a) fun fs r fs' acted' hfs h => ?_).weaken
    (fun _ hw => hw) (fun r w hw => ⟨hw.imp fun fs h => h.1, hw.tree.2⟩) fun e w hw => ?_
  · rw [hfs, hf] at h
    obtain ⟨rfl, hrest⟩ := Prod.mk.inj (Except.ok.inj h)
    obtain ⟨rfl, -⟩ := Prod.mk.inj hrest
    exact ⟨rfl, rfl⟩
  · obtain ⟨rfl, he⟩ := hw.tree
    have he := he.resolve_left hfaults
    rw [hf] at he
    cases he

theorem look_eq {f : FileTree → RealPath → Except IoError α} {a : α} (hfaults : ¬ Faulty faults)
    (hf : f fs₀ cwd = .ok a) :
    Triple (At faults cwd (· = fs₀)) (Fs.look f : Io L α)
      (fun r w => At faults cwd (· = fs₀) w ∧ r = a) fun _ _ => False := by
  unfold Fs.look
  refine call_eq hfaults (?_ : _ = Except.ok (_, _, []))
  rw [hf]
  rfl

theorem path_is_dir {ε : Type} {E : ε → World L → Prop} {p : Path} :
    Triple (At faults cwd I) (Fs.path_is_dir p)
      (fun b => At faults cwd fun fs => I fs ∧
        (b = true → ∃ q, FileTree.LeadsTo fs cwd p q ∧ fs.isDir q = true)) E := by
  refine (Triple.attempt look).bind fun r => ?_
  cases r with
  | error e => exact .pure fun w hw => hw.imp fun fs h => ⟨h.1, nofun⟩
  | ok a =>
    refine .pure fun w hw => hw.imp fun fs h => ⟨h.1, fun hdir => ?_⟩
    obtain ⟨q, n⟩ := a
    obtain ⟨-, hlead, hq⟩ := FileTree.stat_eq_ok.mp h.2
    exact ⟨q, hlead, by rw [FileTree.isDir, hq]; exact hdir⟩

theorem path_exists {ε : Type} {E : ε → World L → Prop} {p : Path} :
    Triple (At faults cwd I) (Fs.path_exists p)
      (fun b => At faults cwd fun fs => I fs ∧ (b = true → ∃ r, fs.stat cwd p = .ok r)) E := by
  refine (Triple.attempt look).bind fun r => ?_
  cases r with
  | error e => exact .pure fun w hw => hw.imp fun fs h => ⟨h.1, nofun⟩
  | ok a => exact .pure fun w hw => hw.imp fun fs h => ⟨h.1, fun _ => ⟨a, h.2⟩⟩

theorem create_dir {l : L} {p : Path} {J : FileTree → Prop}
    (h : ∀ fs q fs', I fs → fs.mkdir cwd p = .ok (q, fs') → J fs') :
    Triple (At faults cwd I) (Fs.create_dir l p) (fun _ => At faults cwd J)
      fun e => At faults cwd fun fs => I fs ∧ (Faulty faults ∨ fs.mkdir cwd p = .error e) := by
  refine (At.call (J := fun _ => J) fun fs a fs' acted hI hf => ?_).weaken
    (fun _ hw => hw) (fun _ _ hQ => hQ) fun e w hE => hE.imp fun fs h => ⟨h.1, h.2.imp_right fun he => ?_⟩
  · obtain ⟨⟨q, fs₁⟩, hm, heq⟩ := Rust.map_eq_ok.mp hf
    obtain ⟨-, hrest⟩ := Prod.mk.inj heq
    obtain ⟨rfl, -⟩ := Prod.mk.inj hrest
    exact h _ _ _ hI hm
  · cases hm : fs.mkdir cwd p with
    | error e' =>
      rw [hm] at he
      obtain rfl : e' = e := Except.error.inj he
      rfl
    | ok r =>
      rw [hm] at he
      cases he

open FileTree

/-- Directories are made along a path only inside of `root`, at the end of the way that it has. -/
theorem create_dir_all_upto {l : L} {p : Path} (hgrounded : Grounded fs₀ cwd p)
    (hmissing : fs₀.MissingInside cwd root p) (fuel : Nat) :
    Triple (At faults cwd (· = fs₀)) (Fs.create_dir_all_upto l fuel p)
      (fun _ => At faults cwd fun fs => Grown root fs₀ fs ∧ (fs = fs₀ ∨ ∃ q, Fresh root fs₀ cwd p fs q))
      fun _ => At faults cwd (Grown root fs₀) := by
  induction fuel generalizing p with
  | zero => exact .throw fun w hw => hw.imp fun fs hfs => hfs ▸ .refl
  | succ fuel ih =>
    -- a directory at the end of the path, in a tree that is ready for it
    have hmkdir : Triple (At faults cwd fun fs => Grown root fs₀ fs ∧ Ready root fs₀ cwd p fs)
        (Fs.create_dir l p)
        (fun _ => At faults cwd fun fs =>
          Grown root fs₀ fs ∧ (fs = fs₀ ∨ ∃ q, Fresh root fs₀ cwd p fs q))
        fun _ => At faults cwd fun fs => Grown root fs₀ fs ∧ Ready root fs₀ cwd p fs := by
      refine (At.create_dir fun fs q fs' hfs hm => ?_).weaken (fun _ hw => hw) (fun _ _ hQ => hQ)
        fun e w hE => hE.imp fun fs h => h.1
      obtain ⟨hgrown, hfresh⟩ := hfs.2.mkdir hmissing hfs.1 hm
      exact ⟨hgrown, .inr ⟨q, hfresh⟩⟩
    have hgiveUp (e : IoError) : Triple (At faults cwd fun fs => Grown root fs₀ fs ∧ Ready root fs₀ cwd p fs)
        (do if ← Fs.path_is_dir p then return () else throw e : Io L Unit)
        (fun _ => At faults cwd fun fs =>
          Grown root fs₀ fs ∧ (fs = fs₀ ∨ ∃ q, Fresh root fs₀ cwd p fs q))
        fun _ => At faults cwd (Grown root fs₀) := by
      refine path_is_dir.bind fun b => ?_
      cases b with
      | false => exact .throw fun w hw => hw.imp fun fs h => h.1.1
      | true =>
        refine .pure fun w hw => hw.imp fun fs h => ⟨h.1.1, .inl ?_⟩
        obtain ⟨⟨hgrown, rfl | ⟨above, d, habove, hfresh⟩⟩, hdir⟩ := h
        · rfl
        · obtain ⟨q, hlead, hq⟩ := hdir rfl
          have hnone := hfresh.leads_nowhere hgrounded hgrown habove hlead
          rw [isDir, hnone] at hq
          cases hq
    have hstart : ∀ w : World L, At faults cwd (· = fs₀) w →
        At faults cwd (fun fs => Grown root fs₀ fs ∧ Ready root fs₀ cwd p fs) w :=
      fun w hw => hw.imp fun fs hfs => ⟨hfs ▸ .refl, .inl hfs⟩
    rw [Fs.create_dir_all_upto_succ]
    split_ifs
    · exact .pure fun w hw => hw.imp fun fs hfs => ⟨hfs ▸ .refl, .inl hfs⟩
    refine (Triple.attempt ((At.create_dir (J := fun fs =>
      Grown root fs₀ fs ∧ (fs = fs₀ ∨ ∃ q, Fresh root fs₀ cwd p fs q)) fun fs q fs' hfs hm => ?_))).bind
      fun r => ?_
    · subst hfs
      obtain ⟨hgrown, hfresh⟩ := Ready.mkdir hmissing .refl (.inl rfl) hm
      exact ⟨hgrown, .inr ⟨q, hfresh⟩⟩
    cases r with
    | ok u => exact .pure fun w hw => hw
    | error e =>
      cases e with
      | notFound =>
        dsimp only
        split
        · exact .throw fun w hw => hw.imp fun fs h => h.1 ▸ .refl
        · rename_i above habove
          refine ((ih (hgrounded.of_parent habove) (hmissing.of_parent habove)).pre
            fun w hw => hw.imp fun fs h => h.1).bind fun _ => ?_
          refine Triple.pre ((Triple.attempt hmkdir).bind fun r => ?_) fun w hw => hw.imp fun fs h =>
            ⟨h.1, h.2.imp_right fun hd => hd.elim fun d hd => ⟨above, d, habove, hd⟩⟩
          cases r with
          | ok u => exact .pure fun w hw => hw
          | error e => exact hgiveUp e
      | _ => exact (hgiveUp _).pre fun w hw => hstart w (hw.imp fun fs h => h.1)

/-- A path that cannot be handed to a call is not looked at. -/
theorem create_dir_all_upto_invalid {l : L} {p : Path} (hfaults : ¬ Faulty faults) (hvalid : ¬ p.Valid)
    (fuel : Nat) :
    Triple (At faults cwd (· = fs₀)) (Fs.create_dir_all_upto l fuel p)
      (fun _ => At faults cwd (· = fs₀)) fun _ => At faults cwd (· = fs₀) := by
  cases fuel with
  | zero => exact .throw fun w hw => hw
  | succ fuel =>
    have hne : p.components ≠ [] := by
      intro hnil
      refine hvalid fun c hc => ?_
      rw [hnil] at hc
      cases hc
    have hmkdir : fs₀.mkdir cwd p = .error .nulByte := by
      have hplace : fs₀.place cwd p = .error .nulByte := by
        unfold place follow
        split
        · rw [if_neg hvalid]
        · rw [if_neg (by simp [hne]), if_neg hvalid]
      unfold mkdir
      rw [hplace]
    rw [Fs.create_dir_all_upto_succ]
    rw [if_neg (by simp [hne])]
    refine (At.create_dir (J := fun _ => False) fun fs q fs' hfs hm => ?_).attempt_bind
      (fun _ w hw => hw.tree.elim) fun e => ?_
    · rw [hfs, hmkdir] at hm
      cases hm
    · refine Triple.pre (P := fun w => At faults cwd (· = fs₀) w ∧ e = .nulByte)
        (.assume fun he => ?_) fun w hw => ⟨hw.imp fun fs h => h.1, ?_⟩
      · subst he
        refine path_is_dir.bind fun b => ?_
        cases b with
        | true => exact .pure fun w hw => hw.imp fun fs h => h.1
        | false => exact .throw fun w hw => hw.imp fun fs h => h.1
      · obtain ⟨hfs, he⟩ := hw.tree
        have he := he.resolve_left hfaults
        rw [hfs, hmkdir] at he
        exact (Except.error.inj he).symm

/-- The path of a directory that is there leaves the tree as it is. -/
theorem create_dir_all_upto_existing {l : L} {p : Path} {q : RealPath} {ino fuel : Nat}
    (hfaults : ¬ Faulty faults) (hstat : fs₀.stat cwd p = .ok (q, .dir ino)) :
    Triple (At faults cwd (· = fs₀)) (Fs.create_dir_all_upto l (fuel + 1) p)
      (fun _ => At faults cwd (· = fs₀)) fun _ _ => False := by
  obtain ⟨hempty, -⟩ := stat_eq_ok.mp hstat
  have hmkdir : fs₀.mkdir cwd p = .error .alreadyExists := by
    obtain ⟨x, hplace, hx⟩ := place_of_stat hstat
    unfold mkdir
    rw [hplace]
    dsimp only
    rw [if_pos (Option.isSome_iff_ne_none.mpr hx)]
  rw [Fs.create_dir_all_upto_succ]
  rw [if_neg hempty]
  refine (At.create_dir (J := fun _ => False) fun fs q fs' hfs hm => ?_).attempt_bind
    (fun _ w hw => hw.tree.elim) fun e => ?_
  · rw [hfs, hmkdir] at hm
    cases hm
  · refine Triple.pre (P := fun w => At faults cwd (· = fs₀) w ∧ e = .alreadyExists)
      (.assume fun he => ?_) fun w hw => ⟨hw.imp fun fs h => h.1, ?_⟩
    · subst he
      -- the directory is found, so the failed call does not matter
      refine Triple.bind (R := fun b w => At faults cwd (· = fs₀) w ∧ b = true) ?_ fun b => .assume fun hb => ?_
      · refine At.look.attempt_bind (fun r => .pure fun w hw => ?_) fun e w hw => ?_
        · refine ⟨hw.imp fun fs h => h.1, ?_⟩
          obtain ⟨hfs, hr⟩ := hw.tree
          rw [hfs, hstat] at hr
          obtain rfl := Except.ok.inj hr
          rfl
        · obtain ⟨hfs, he⟩ := hw.tree
          have he := he.resolve_left hfaults
          rw [hfs, hstat] at he
          cases he
      · rw [hb]
        exact .pure fun w hw => hw
    · obtain ⟨hfs, he⟩ := hw.tree
      have he := he.resolve_left hfaults
      rw [hfs, hmkdir] at he
      exact (Except.error.inj he).symm

/-- A directory that is there stays, whatever directories are made. -/
theorem isDir_mkdir {fs fs' : FileTree} {p : Path} {q x : RealPath} (hx : fs.isDir x = true)
    (h : fs.mkdir cwd p = .ok (q, fs')) : fs'.isDir x = true := by
  obtain ⟨ino, hdir⟩ := fs.isDir_iff.mp hx
  exact fs'.isDir_iff.mpr ⟨ino, mkdir_sub h _ _ hdir⟩

/-- Where no call fails for other reasons, the first directory that is missing on the way of a path gets made,
    even if not all of them do. -/
theorem create_dir_all_upto_makes {l : L} {p : Path} {cs ds : List Component} {name : String}
    {q : RealPath} {k ino : Nat} (hp : p.components = cs ++ .normal name :: ds) (hvalid : p.Valid)
    (htrimmed : p.trimmed = p.components) (hway : Way fs₀ MAXSYMLINKS (origin cwd p) cs q k)
    (hdir : fs₀.node q = some (.dir ino)) (hnone : fs₀.node (q ++ [name]) = none) {fuel : Nat}
    (hfuel : ds.length < fuel) :
    Triple (At (fun _ => none) cwd (· = fs₀)) (Fs.create_dir_all_upto l fuel p)
      (fun _ => At (fun _ => none) cwd fun fs => fs.isDir (q ++ [name]) = true)
      fun _ => At (fun _ => none) cwd fun fs => fs.isDir (q ++ [name]) = true := by
  induction fuel generalizing p ds with
  | zero => omega
  | succ fuel ih =>
    have hmkdir : Triple (At (fun _ => none) cwd fun fs => fs.isDir (q ++ [name]) = true)
        (Fs.create_dir l p) (fun _ => At (fun _ => none) cwd fun fs => fs.isDir (q ++ [name]) = true)
        fun _ => At (fun _ => none) cwd fun fs => fs.isDir (q ++ [name]) = true :=
      (At.create_dir fun fs q' fs' => isDir_mkdir).weaken (fun _ hw => hw) (fun _ _ hQ => hQ)
        fun e w hE => hE.imp fun fs h => h.1
    have hgiveUp (e : IoError) :
        Triple (At (fun _ => none) cwd fun fs => fs.isDir (q ++ [name]) = true)
          (do if ← Fs.path_is_dir p then return () else throw e : Io L Unit)
          (fun _ => At (fun _ => none) cwd fun fs => fs.isDir (q ++ [name]) = true)
          fun _ => At (fun _ => none) cwd fun fs => fs.isDir (q ++ [name]) = true := by
      refine path_is_dir.bind fun b => ?_
      cases b with
      | true => exact .pure fun w hw => hw.imp fun fs h => h.1
      | false => exact .throw fun w hw => hw.imp fun fs h => h.1
    rw [Fs.create_dir_all_upto_succ]
    rw [if_neg (by simp [hp])]
    by_cases hds : ds = []
    · -- the directory is the one at the end of the path
      subst hds
      obtain ⟨fs', hmade⟩ := mkdir_room hp hvalid hway hdir hnone
      refine (At.create_dir (J := fun fs => fs.isDir (q ++ [name]) = true) fun fs q' fs₁ hfs hm => ?_).attempt_bind
        (fun _ => .pure fun w hw => hw) fun e w hw => ?_
      · subst hfs
        obtain ⟨rfl, rfl⟩ := Prod.mk.inj (Except.ok.inj (hmade.symm.trans hm))
        obtain ⟨-, -, hnode⟩ := mkdir_ok hmade
        exact fs'.isDir_iff.mpr ⟨_, by rw [hnode, if_pos rfl]⟩
      · obtain ⟨hfs, ⟨n, hn⟩ | he⟩ := hw.tree
        · exact absurd rfl hn
        · rw [hfs, hmade] at he
          cases he
    · obtain ⟨ds', habove, hlen, hds'⟩ := parent_of_name hp hds htrimmed
      have hmissing := mkdir_missing hp hds hvalid hway hdir hnone
      refine (At.create_dir (J := fun _ => False) fun fs q' fs₁ hfs hm => ?_).attempt_bind
        (fun _ w hw => hw.tree.elim) fun e => ?_
      · rw [hfs, hmissing] at hm
        cases hm
      · refine Triple.pre (P := fun w => At (fun _ => none) cwd (· = fs₀) w ∧ e = .notFound)
          (.assume fun he => ?_) fun w hw => ⟨hw.imp fun fs h => h.1, ?_⟩
        · subst he
          dsimp only
          rw [habove]
          refine (ih (p := { p with components := cs ++ .normal name :: ds' }) rfl
            (fun c hc => hvalid c ?_) ?_ hway (by omega)).bind fun _ => hmkdir.attempt_bind
              (fun _ => .pure fun w hw => hw) hgiveUp
          · obtain ⟨-, rest, heq, -⟩ := parent_prefix habove
            rw [heq]
            exact List.mem_append_left _ hc
          · rw [trimmed_of_name (p := { p with components := cs ++ .normal name :: ds' }) rfl, hds']
        · obtain ⟨hfs, ⟨n, hn⟩ | he⟩ := hw.tree
          · exact absurd rfl hn
          · rw [hfs, hmissing] at he
            exact (Except.error.inj he).symm

end At

end Posix
