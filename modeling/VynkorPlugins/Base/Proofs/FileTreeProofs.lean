import VynkorPlugins.Base.FileCalls

/-!
# Proofs: ways through a file tree, and calls on it

The ways that come to an end, as a relation: how they are composed, what they need of the tree, and how many
links they follow. Then what each call looks for and what it changes.
-/

namespace Posix

namespace FileTree

section Ways

/-- The way of some components from a place leads to `t`, and `k` of the `n` links that it could follow are
    left. -/
inductive Way (fs : FileTree) : Nat → RealPath → List Component → RealPath → Nat → Prop
  | stay {n q} : Way fs n q [] q n
  | curDir {n q cs t k ino} (hdir : fs.node q = some (.dir ino)) (h : Way fs n q cs t k) :
      Way fs n q (.curDir :: cs) t k
  | parentDir {n q cs t k ino} (hdir : fs.node q = some (.dir ino)) (h : Way fs n q.dropLast cs t k) :
      Way fs n q (.parentDir :: cs) t k
  | entry {n q name cs t k ino} (hdir : fs.node q = some (.dir ino))
      (hentry : ∀ target, fs.node (q ++ [name]) ≠ some (.symlink target))
      (h : Way fs n (q ++ [name]) cs t k) : Way fs n q (.normal name :: cs) t k
  | link {n q name cs t k ino target} (hdir : fs.node q = some (.dir ino))
      (hlink : fs.node (q ++ [name]) = some (.symlink target))
      (h : Way fs n (origin q target) (target.components ++ cs) t k) :
      Way fs (n + 1) q (.normal name :: cs) t k

variable {fs fs' : FileTree} {n k j : Nat} {q t t' : RealPath} {cs cs' : List Component}

/-! ## Ways and walks -/

/-! A walk is one with no link to follow, or one that goes on behind a link with one fewer. -/

theorem walk_zero : fs.walk 0 q cs = fs.walkWith (fun _ _ => .error .filesystemLoop) 0 q cs :=
  rfl

theorem walk_succ : fs.walk (n + 1) q cs = fs.walkWith (fs.walk n) (n + 1) q cs :=
  rfl

section Step

variable {follow : RealPath → List Component → Except IoError (RealPath × Nat)} {name : String} {ino : Nat}

/-- One component of a walk. `follow` is what a link does with the rest of it. -/
theorem walkWith_step {c : Component} :
    fs.walkWith follow n q (c :: cs) =
      match fs.node q with
      | some (.dir _) =>
        match c with
        | .curDir => fs.walkWith follow n q cs
        | .parentDir => fs.walkWith follow n q.dropLast cs
        | .normal name =>
          match fs.node (q ++ [name]) with
          | some (.symlink target) => follow (origin q target) (target.components ++ cs)
          | _ => fs.walkWith follow n (q ++ [name]) cs
      | some _ => .error .notADirectory
      | none => .error .notFound :=
  rfl

theorem walkWith_cons {c : Component} {r : RealPath × Nat} (h : fs.walkWith follow n q (c :: cs) = .ok r) :
    ∃ ino, fs.node q = some (.dir ino) ∧
      (c = .curDir ∧ fs.walkWith follow n q cs = .ok r ∨
        c = .parentDir ∧ fs.walkWith follow n q.dropLast cs = .ok r ∨
        ∃ name, c = .normal name ∧
          ((∀ target, fs.node (q ++ [name]) ≠ some (.symlink target)) ∧
              fs.walkWith follow n (q ++ [name]) cs = .ok r ∨
            ∃ target, fs.node (q ++ [name]) = some (.symlink target) ∧
              follow (origin q target) (target.components ++ cs) = .ok r)) := by
  rw [walkWith_step] at h
  split at h
  · rename_i ino hdir
    refine ⟨ino, hdir, ?_⟩
    cases c with
    | curDir => exact .inl ⟨rfl, h⟩
    | parentDir => exact .inr (.inl ⟨rfl, h⟩)
    | normal name =>
      refine .inr (.inr ⟨name, rfl, ?_⟩)
      dsimp only at h
      split at h
      · exact .inr ⟨_, ‹_›, h⟩
      · rename_i hentry
        exact .inl ⟨fun target => hentry target, h⟩
  · cases h
  · cases h

theorem walkWith_entry (hdir : fs.node q = some (.dir ino))
    (hentry : ∀ target, fs.node (q ++ [name]) ≠ some (.symlink target)) :
    fs.walkWith follow n q (.normal name :: cs) = fs.walkWith follow n (q ++ [name]) cs := by
  rw [walkWith_step, hdir]
  dsimp only
  split
  · exact absurd ‹_› (hentry _)
  · rfl

theorem walkWith_link {target : Path} (hdir : fs.node q = some (.dir ino))
    (hlink : fs.node (q ++ [name]) = some (.symlink target)) :
    fs.walkWith follow n q (.normal name :: cs) = follow (origin q target) (target.components ++ cs) := by
  rw [walkWith_step, hdir]
  dsimp only
  rw [hlink]

theorem walkWith_curDir (hdir : fs.node q = some (.dir ino)) :
    fs.walkWith follow n q (.curDir :: cs) = fs.walkWith follow n q cs := by
  rw [walkWith_step, hdir]

theorem walkWith_parentDir (hdir : fs.node q = some (.dir ino)) :
    fs.walkWith follow n q (.parentDir :: cs) = fs.walkWith follow n q.dropLast cs := by
  rw [walkWith_step, hdir]

theorem walkWith_none {c : Component} (hnone : fs.node q = none) :
    fs.walkWith follow n q (c :: cs) = .error .notFound := by
  rw [walkWith_step, hnone]

/-! A step of a walk that follows no link -/

theorem walk_curDir (hdir : fs.node q = some (.dir ino)) : fs.walk n q (.curDir :: cs) = fs.walk n q cs := by
  cases n <;> exact walkWith_curDir hdir

theorem walk_parentDir (hdir : fs.node q = some (.dir ino)) :
    fs.walk n q (.parentDir :: cs) = fs.walk n q.dropLast cs := by
  cases n <;> exact walkWith_parentDir hdir

theorem walk_entry (hdir : fs.node q = some (.dir ino))
    (hentry : ∀ target, fs.node (q ++ [name]) ≠ some (.symlink target)) :
    fs.walk n q (.normal name :: cs) = fs.walk n (q ++ [name]) cs := by
  cases n <;> exact walkWith_entry hdir hentry

/-- Nothing comes after a place where there is nothing. -/
theorem walk_none {c : Component} (hnone : fs.node q = none) : fs.walk n q (c :: cs) = .error .notFound := by
  cases n <;> exact walkWith_none hnone

end Step

theorem way_of_walk (h : fs.walk n q cs = .ok (t, k)) : Way fs n q cs t k := by
  induction n generalizing q cs with
  | zero =>
    rw [walk_zero] at h
    induction cs generalizing q with
    | nil =>
      obtain ⟨rfl, rfl⟩ := Prod.mk.inj (Except.ok.inj h)
      exact .stay
    | cons c cs ih =>
      obtain ⟨ino, hdir, ⟨rfl, hw⟩ | ⟨rfl, hw⟩ | ⟨name, rfl, ⟨hentry, hw⟩ | ⟨target, hlink, hw⟩⟩⟩ :=
        walkWith_cons h
      · exact .curDir hdir (ih hw)
      · exact .parentDir hdir (ih hw)
      · exact .entry hdir hentry (ih hw)
      · cases hw
  | succ n ihn =>
    rw [walk_succ] at h
    induction cs generalizing q with
    | nil =>
      obtain ⟨rfl, rfl⟩ := Prod.mk.inj (Except.ok.inj h)
      exact .stay
    | cons c cs ih =>
      obtain ⟨ino, hdir, ⟨rfl, hw⟩ | ⟨rfl, hw⟩ | ⟨name, rfl, ⟨hentry, hw⟩ | ⟨target, hlink, hw⟩⟩⟩ :=
        walkWith_cons h
      · exact .curDir hdir (ih hw)
      · exact .parentDir hdir (ih hw)
      · exact .entry hdir hentry (ih hw)
      · exact .link hdir hlink (ihn hw)

theorem walk_of_way (h : Way fs n q cs t k) : fs.walk n q cs = .ok (t, k) := by
  induction h with
  | @stay n q => cases n <;> rfl
  | curDir hdir _ ih => rw [walk_curDir hdir, ih]
  | parentDir hdir _ ih => rw [walk_parentDir hdir, ih]
  | entry hdir hentry _ ih => rw [walk_entry hdir hentry, ih]
  | @link n q name cs t k ino target hdir hlink h ih =>
    rw [← ih, walk_succ]
    exact walkWith_link hdir hlink

theorem walk_iff_way : fs.walk n q cs = .ok (t, k) ↔ Way fs n q cs t k :=
  ⟨way_of_walk, walk_of_way⟩

namespace Way

/-- A way has one end. -/
theorem unique {k' : Nat} (h : Way fs n q cs t k) (h' : Way fs n q cs t' k') : t = t' ∧ k = k' := by
  have heq := (walk_of_way h).symm.trans (walk_of_way h')
  exact Prod.mk.inj (Except.ok.inj heq)

theorem append {k' : Nat} (h : Way fs n q cs t k) (h' : Way fs k t cs' t' k') :
    Way fs n q (cs ++ cs') t' k' := by
  induction h with
  | stay => exact h'
  | curDir hdir _ ih => exact .curDir hdir (ih h')
  | parentDir hdir _ ih => exact .parentDir hdir (ih h')
  | entry hdir hentry _ ih => exact .entry hdir hentry (ih h')
  | link hdir hlink _ ih =>
    have hrest := ih h'
    rw [List.append_assoc] at hrest
    exact .link hdir hlink hrest

/-- A way that comes to an end gets to each point on it. -/
theorem split {k' : Nat} (h : Way fs n q (cs ++ cs') t' k') :
    ∃ t k, Way fs n q cs t k ∧ Way fs k t cs' t' k' := by
  generalize hall : cs ++ cs' = all at h
  induction h generalizing cs with
  | @stay n q =>
    obtain ⟨rfl, rfl⟩ := List.append_eq_nil_iff.mp hall
    exact ⟨q, n, .stay, .stay⟩
  | @curDir n q rest t' k' ino hdir h ih =>
    cases cs with
    | nil =>
      obtain rfl : cs' = _ := hall
      exact ⟨q, n, .stay, .curDir hdir h⟩
    | cons c cs =>
      obtain ⟨rfl, hrest⟩ := List.cons.inj hall
      obtain ⟨t, k, hway, hway'⟩ := ih hrest
      exact ⟨t, k, .curDir hdir hway, hway'⟩
  | @parentDir n q rest t' k' ino hdir h ih =>
    cases cs with
    | nil =>
      obtain rfl : cs' = _ := hall
      exact ⟨q, n, .stay, .parentDir hdir h⟩
    | cons c cs =>
      obtain ⟨rfl, hrest⟩ := List.cons.inj hall
      obtain ⟨t, k, hway, hway'⟩ := ih hrest
      exact ⟨t, k, .parentDir hdir hway, hway'⟩
  | @entry n q name rest t' k' ino hdir hentry h ih =>
    cases cs with
    | nil =>
      obtain rfl : cs' = _ := hall
      exact ⟨q, n, .stay, .entry hdir hentry h⟩
    | cons c cs =>
      obtain ⟨rfl, hrest⟩ := List.cons.inj hall
      obtain ⟨t, k, hway, hway'⟩ := ih hrest
      exact ⟨t, k, .entry hdir hentry hway, hway'⟩
  | @link n q name rest t' k' ino target hdir hlink h ih =>
    cases cs with
    | nil =>
      obtain rfl : cs' = _ := hall
      exact ⟨q, n + 1, .stay, .link hdir hlink h⟩
    | cons c cs =>
      obtain ⟨rfl, hrest⟩ := List.cons.inj hall
      have hall' : (target.components ++ cs) ++ cs' = target.components ++ rest := by
        rw [List.append_assoc]
        exact congrArg _ hrest
      obtain ⟨t, k, hway, hway'⟩ := ih hall'
      exact ⟨t, k, .link hdir hlink hway, hway'⟩

/-! ## What a way needs of the tree -/

theorem start (h : Way fs n q cs t k) (ht : fs.node t ≠ none) : fs.node q ≠ none := by
  cases h with
  | stay => exact ht
  | curDir hdir | parentDir hdir | entry hdir | link hdir =>
    rw [hdir]
    simp

/-- A way to something that exists is the same in a tree that has all that the first one has. -/
theorem mono (hle : ∀ q n, fs.node q = some n → fs'.node q = some n) (h : Way fs n q cs t k)
    (ht : fs.node t ≠ none) : Way fs' n q cs t k := by
  induction h with
  | stay => exact .stay
  | curDir hdir _ ih => exact .curDir (hle _ _ hdir) (ih ht)
  | parentDir hdir _ ih => exact .parentDir (hle _ _ hdir) (ih ht)
  | @entry n q name cs t k ino hdir hentry h ih =>
    refine .entry (hle _ _ hdir) (fun target hlink => ?_) (ih ht)
    obtain ⟨entry, hsome⟩ := Option.ne_none_iff_exists'.mp (h.start ht)
    have hsame := hle _ _ hsome
    rw [hlink] at hsame
    exact hentry target (hsome.trans hsame.symm)
  | link hdir hlink _ ih => exact .link (hle _ _ hdir) (hle _ _ hlink) (ih ht)

end Way

/-- A directory lies in a directory. -/
theorem dir_dropLast {ino : Nat} (h : fs.node q = some (.dir ino)) :
    ∃ ino, fs.node q.dropLast = some (.dir ino) := by
  rcases List.eq_nil_or_concat' q with rfl | ⟨d, name, rfl⟩
  · exact fs.root
  · rw [List.dropLast_concat]
    exact fs.closed d name (by simp [h])

/-- The way to a place along its own names follows no link, unless there is a link at the place. -/
theorem way_names {e : Node} (h : fs.node q = some e) (he : e.isSymlink = false) (n : Nat) :
    Way fs n [] (q.map .normal) q n := by
  induction q using List.reverseRecOn generalizing e with
  | nil => exact .stay
  | append_singleton d name ih =>
    obtain ⟨ino, hd⟩ := fs.closed d name (by simp [h])
    rw [List.map_append]
    refine (ih hd rfl).append (.entry hd (fun target hlink => ?_) .stay)
    obtain rfl := Option.some.inj (h.symm.trans hlink)
    cases he

end Ways

section Calls

variable {fs fs' : FileTree} {cwd q x d : RealPath} {p : List String} {name : String}

/-! ## Where paths lead to -/

/-- The path of some names leads to a place, over no more links than are followed. -/
def Leads (fs : FileTree) (p : List String) (q : RealPath) : Prop :=
  ∃ k, Way fs MAXSYMLINKS [] (p.map .normal) q k

/-- A tree that has all that another one has. -/
def Sub (fs fs' : FileTree) : Prop :=
  ∀ q n, fs.node q = some n → fs'.node q = some n

/-- The names of what exists are names that an entry can have. -/
theorem Way.valid {n k : Nat} {t : RealPath} {cs : List Component} (h : Way fs n q cs t k)
    (ht : fs.node t ≠ none) : ∀ c ∈ cs, c.Valid := by
  induction h with
  | stay => simp
  | curDir _ _ ih => exact List.forall_mem_cons.mpr ⟨trivial, ih ht⟩
  | parentDir _ _ ih => exact List.forall_mem_cons.mpr ⟨trivial, ih ht⟩
  | entry _ _ h ih =>
    refine List.forall_mem_cons.mpr ⟨?_, ih ht⟩
    exact fs.valid _ (h.start ht) _ (by simp)
  | @link n q name cs t k ino target hdir hlink h ih =>
    refine List.forall_mem_cons.mpr ⟨?_, fun c hc => ih ht c (List.mem_append_right _ hc)⟩
    exact fs.valid (q ++ [name]) (by simp [hlink]) name (by simp)

theorem Leads.valid (h : Leads fs p q) (hq : fs.node q ≠ none) : (Path.ofNames p).Valid := by
  obtain ⟨k, h⟩ := h
  exact h.valid hq

theorem follow_ofNames :
    fs.follow cwd (.ofNames p) = .ok q ↔ (Path.ofNames p).Valid ∧ Leads fs p q := by
  change (if _ then _ else _) = Except.ok q ↔ _
  by_cases hvalid : (Path.ofNames p).Valid
  · rw [if_pos hvalid]
    change ((fs.walk MAXSYMLINKS [] (p.map .normal)).map Prod.fst) = _ ↔ _
    constructor
    · intro h
      cases hw : fs.walk MAXSYMLINKS [] (p.map .normal) with
      | error e =>
        rw [hw] at h
        cases h
      | ok r =>
        rw [hw] at h
        obtain rfl : r.1 = q := Except.ok.inj h
        exact ⟨hvalid, r.2, way_of_walk hw⟩
    · rintro ⟨-, k, h⟩
      rw [walk_of_way h]
      rfl
  · rw [if_neg hvalid]
    constructor
    · intro h
      cases h
    · intro h
      exact absurd h.1 hvalid

theorem place_ofNames :
    fs.place cwd (.ofNames (p ++ [name])) = .ok q ↔
      (Path.ofNames (p ++ [name])).Valid ∧
        ∃ d ino, Leads fs p d ∧ fs.node d = some (.dir ino) ∧ q = d ++ [name] := by
  have hlast : (Path.ofNames (p ++ [name])).components.getLast? = some (.normal name) := by
    simp [Path.ofNames]
  have hinit : (Path.ofNames (p ++ [name])).components.dropLast = p.map .normal := by
    simp [Path.ofNames]
  unfold place
  rw [hlast, hinit]
  change (if _ then _ else _) = Except.ok q ↔ _
  by_cases hvalid : (Path.ofNames (p ++ [name])).Valid
  · rw [if_pos hvalid]
    have horigin : origin cwd (Path.ofNames (p ++ [name])) = [] := rfl
    rw [horigin]
    constructor
    · intro h
      cases hw : fs.walk MAXSYMLINKS [] (p.map .normal) with
      | error e =>
        rw [hw] at h
        cases h
      | ok r =>
        obtain ⟨d, k⟩ := r
        rw [hw] at h
        dsimp only at h
        split at h
        · rename_i ino hd
          exact ⟨hvalid, d, ino, ⟨k, way_of_walk hw⟩, hd, (Except.ok.inj h).symm⟩
        · cases h
        · cases h
    · rintro ⟨-, d, ino, ⟨k, hd⟩, hdir, rfl⟩
      rw [walk_of_way hd]
      dsimp only
      rw [hdir]
  · rw [if_neg hvalid]
    constructor
    · intro h
      cases h
    · intro h
      exact absurd h.1 hvalid

theorem existing_eq_ok {r : Except IoError RealPath} {n : Node} :
    fs.existing r = .ok (q, n) ↔ r = .ok q ∧ fs.node q = some n := by
  unfold existing
  cases r with
  | error e => simp
  | ok q' =>
    dsimp only
    constructor
    · intro h
      split at h
      · obtain ⟨rfl, rfl⟩ := Prod.mk.inj (Except.ok.inj h)
        exact ⟨rfl, ‹_›⟩
      · cases h
    · rintro ⟨h, hn⟩
      obtain rfl := Except.ok.inj h
      rw [hn]

theorem stat_ofNames {n : Node} :
    fs.stat cwd (.ofNames p) = .ok (q, n) ↔ Leads fs p q ∧ fs.node q = some n := by
  rw [stat, existing_eq_ok, follow_ofNames]
  constructor
  · rintro ⟨⟨-, hq⟩, hn⟩
    exact ⟨hq, hn⟩
  · rintro ⟨hq, hn⟩
    exact ⟨⟨hq.valid (by simp [hn]), hq⟩, hn⟩

/-- The path of the names of a place leads there, unless there is a link. -/
theorem leads_names {n : Node} (h : fs.node q = some n) (hn : n.isSymlink = false) : Leads fs q q :=
  ⟨MAXSYMLINKS, way_names h hn _⟩

/-! ## Changes -/

theorem node_insert {n : Node} {h : fs.Room q} {hino : ∀ ino, n = .dir ino → ino = fs.nextIno} :
    (fs.insert q n h hino).node x = if x = q then some n else fs.node x := rfl

theorem node_prune {h : q ≠ []} : (fs.prune q h).node x = if q <+: x then none else fs.node x := rfl

theorem node_move {a b : RealPath} {h : fs.Movable a b} :
    (fs.move a b h).node x =
      if b <+: x then fs.node (a ++ x.drop b.length) else if a <+: x then none else fs.node x := rfl

/-- A new directory is made where nothing was. -/
theorem mkdir_ok {path : Path} (h : fs.mkdir cwd path = .ok (q, fs')) :
    fs.place cwd path = .ok q ∧ fs.node q = none ∧
      ∀ x, fs'.node x = if x = q then some (.dir fs.nextIno) else fs.node x := by
  unfold mkdir at h
  cases hplace : fs.place cwd path with
  | error e =>
    rw [hplace] at h
    cases h
  | ok q' =>
    rw [hplace] at h
    dsimp only at h
    split_ifs at h with hsome hroom
    obtain ⟨rfl, rfl⟩ := Prod.mk.inj (Except.ok.inj h)
    exact ⟨rfl, by simpa using hsome, fun x => node_insert⟩

theorem mkdir_sub {path : Path} (h : fs.mkdir cwd path = .ok (q, fs')) : Sub fs fs' := by
  obtain ⟨-, hnone, hnode⟩ := mkdir_ok h
  intro x n hn
  have hne : x ≠ q := by
    rintro rfl
    rw [hnone] at hn
    cases hn
  rw [hnode, if_neg hne]
  exact hn

/-- Data goes to a file or to a new one. -/
theorem setFile_ok {data : List UInt8} (h : fs.setFile q data = .ok fs') :
    fs.isDir q = false ∧
      (fs' = fs ∨ ∀ x, fs'.node x = if x = q then some (.file data) else fs.node x) := by
  unfold setFile at h
  split at h
  · cases h
  · cases h
  · rename_i hother
    obtain rfl := Except.ok.inj h
    exact ⟨by simp [isDir, hother, Node.isDir], .inl rfl⟩
  · split_ifs at h with hroom
    obtain rfl := Except.ok.inj h
    exact ⟨hroom.notDir, .inr fun x => node_insert⟩

theorem unlinkat_ok (h : fs.unlinkat q = .ok fs') :
    fs.node q ≠ none ∧ (fs.children q).isEmpty = true ∧
      ∀ x, fs'.node x = if q <+: x then none else fs.node x := by
  unfold unlinkat at h
  split_ifs at h with hnone hchildren hne
  obtain rfl := Except.ok.inj h
  exact ⟨by simpa using hnone, by simpa using hchildren, fun x => node_prune⟩

theorem unlinkat_sub (h : fs.unlinkat q = .ok fs') : Sub fs' fs := by
  obtain ⟨-, -, hnode⟩ := unlinkat_ok h
  intro x n hn
  rw [hnode] at hn
  split_ifs at hn
  exact hn

end Calls

end FileTree

/-! ## Worlds -/

/-- No call fails for a reason outside of the tree. -/
def World.Calm {L : Type} (w : World L) : Prop :=
  ∀ n, w.fault n = none

end Posix
