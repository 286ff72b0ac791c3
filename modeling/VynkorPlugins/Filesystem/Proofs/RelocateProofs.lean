import Mathlib.Data.List.Dedup
import Mathlib.Data.List.Infix
import Mathlib.Data.List.Nodup
import Mathlib.Data.List.Perm.Subperm
import VynkorPlugins.Base.Proofs.ReplayProofs
import VynkorPlugins.Filesystem.Handler

/-!
# Proofs: renames and moves

A rename and a move are all or nothing, whichever calls fail, unless they remove a destination beforehand or
replace one unseen.
-/

namespace Filesystem

open Hoare Posix FileTree

variable {h : Handler} {p : RenameParams} {fs fs' fs₀ : FileTree} {cwd q a b : RealPath} {name : String}
  {faults : Nat → Option IoError}

/-! ## What is to hold -/

/-- The tree with what was at `a` and all below it at `b` instead. -/
structure Moved (a b : RealPath) (before after : FileTree) : Prop where
  source : before.node a ≠ none
  tree : ∀ x, after.node x =
    if a = b then before.node x
    else if b <+: x then before.node (a ++ x.drop b.length)
    else if a <+: x then none
    else before.node x

/-- What the source is resolved to is moved to what the target is resolved to, in place of nothing unless
    `overwrite` is set. -/
def Relocated (h : Handler) (p : RenameParams) (w : Disk) (after : FileTree) : Prop :=
  ∃ source target a b,
    (h.sandbox.resolve p.from w).1 = .ok source ∧
    (h.sandbox.resolve p.to (h.sandbox.resolve p.from w).2).1 = .ok target ∧
    w.fs.place w.cwd source.toPath = .ok a ∧ w.fs.place w.cwd target.toPath = .ok b ∧
    Moved a b w.fs after ∧ (a ≠ b → w.fs.node b ≠ none → p.overwrite = true)

structure AllOrNothing (h : Handler) (p : RenameParams) (w : Disk) (r : Except String Json)
    (after : FileTree) : Prop where
  error : ∀ e, r = .error e → ∀ x, after.node x = w.fs.node x
  ok : ∀ json, r = .ok json → Relocated h p w after

/-- What a requested path is resolved to in a tree, for some calls that fail. -/
def MayResolve (h : Handler) (fs : FileTree) (cwd : RealPath) (requested : String) (r : ResolvedPath) : Prop :=
  ∃ w : Disk, w.fs = fs ∧ w.cwd = cwd ∧ (h.sandbox.resolve requested w).1 = .ok r

/-- Nothing is overwritten: with `overwrite`, nothing is found where the target is resolved to, and without it a
    rename has nothing to replace. -/
def NothingOverwritten (h : Handler) (p : RenameParams) (fs : FileTree) (cwd : RealPath) : Prop :=
  ∀ source target a b, MayResolve h fs cwd p.from source → MayResolve h fs cwd p.to target →
    source.is_root = false → target.is_root = false →
    fs.place cwd source.toPath = .ok a → fs.node a ≠ none → fs.place cwd target.toPath = .ok b →
      (p.overwrite = true → ∃ e, fs.stat cwd target.toPath = .error e) ∧
      (p.overwrite = false → a ≠ b → fs.node b ≠ none → ∃ e, fs.renameat a b = .error e)

/-! ## Renames -/

theorem renameat_eq_ok (hr : fs.renameat a b = .ok fs') :
    fs.node a ≠ none ∧ (a = b ∧ fs' = fs ∨ a ≠ b ∧ ∀ x, fs'.node x =
      if b <+: x then fs.node (a ++ x.drop b.length) else if a <+: x then none else fs.node x) := by
  unfold renameat at hr
  split at hr
  · cases hr
  · rename_i n hn
    refine ⟨by simp [hn], ?_⟩
    split_ifs at hr with heq hroot hab hba hdir hempty hkind hmovable
    · exact .inl ⟨heq, (Except.ok.inj hr).symm⟩
    · obtain rfl := Except.ok.inj hr
      exact .inr ⟨heq, fun x => node_move⟩

theorem moved_of_renameat (hr : fs.renameat a b = .ok fs') : Moved a b fs fs' := by
  obtain ⟨hsource, ⟨rfl, rfl⟩ | ⟨hne, hnode⟩⟩ := renameat_eq_ok hr
  · exact ⟨hsource, fun x => (if_pos rfl).symm⟩
  · refine ⟨hsource, fun x => ?_⟩
    rw [if_neg hne]
    exact hnode x

/-! ## Resolving changes nothing -/

theorem popAncestor_quiet (requested : String) (cs : List Component) (suffix : List String) :
    Quiet (Sandbox.popAncestor requested cs suffix) := by
  induction cs generalizing suffix with
  | nil => exact .throw
  | cons c cs ih =>
    cases c with
    | curDir => exact ih suffix
    | parentDir => exact .throw
    | normal name =>
      unfold Sandbox.popAncestor
      refine Quiet.look.attempt.bind fun r => ?_
      cases r with
      | ok canon => exact .pure
      | error e => exact ih _

theorem resolve_quiet (sandbox : Sandbox) (requested : String) : Quiet (sandbox.resolve requested) := by
  have hancestor : Quiet (Sandbox.canonicalAncestor requested (Path.parse requested)) := by
    unfold Sandbox.canonicalAncestor
    refine Quiet.look.attempt.bind fun r => ?_
    cases r with
    | ok canon => exact .pure
    | error e => exact popAncestor_quiet _ _ _
  unfold Sandbox.resolve
  refine Quiet.guard ?_
  refine Quiet.guard (hancestor.bind fun r => ?_)
  dsimp only
  split
  · exact .pure
  · exact .throw

/-! ## Where nothing is overwritten -/

theorem resolve_triple {w : Disk} (requested : String) :
    Triple (· = w) (h.sandbox.resolve requested)
      (fun r s => At w.fault w.cwd (· = w.fs) s ∧ h.sandbox.resolve requested w = (.ok r, s))
      fun _ s => s.fs = w.fs := by
  have hquiet := resolve_quiet h.sandbox requested
  rintro s rfl
  have hfs := hquiet.fs s
  have hcwd := hquiet.cwd s
  have hfault := hquiet.isLocal.fault s
  cases hrun : h.sandbox.resolve requested s with
  | mk r s₁ =>
    rw [hrun] at hfs hcwd hfault
    cases r with
    | error e => exact hfs
    | ok r => exact ⟨⟨hfault, hcwd, hfs⟩, rfl⟩

variable {w : Disk} {source target : ResolvedPath}

/-- The rename at the end. -/
theorem rename_triple (g : IoError → String) (json : Json)
    (hsource : (h.sandbox.resolve p.from w).1 = .ok source)
    (htarget : (h.sandbox.resolve p.to (h.sandbox.resolve p.from w).2).1 = .ok target)
    (hreplaced : ∀ a b, w.fs.place w.cwd source.toPath = .ok a → w.fs.place w.cwd target.toPath = .ok b →
      p.overwrite = false → a ≠ b → w.fs.node b ≠ none → ∃ e, w.fs.renameat a b = .error e) :
    Triple (At w.fault w.cwd (· = w.fs))
      (do
        mapErr (Fs.rename Purpose.request Purpose.request source.toPath target.toPath) g
        return json)
      (fun _ s => Relocated h p w s.fs) fun _ s => s.fs = w.fs := by
  have hrename : Triple (At w.fault w.cwd (· = w.fs))
      (Fs.rename Purpose.request Purpose.request source.toPath target.toPath)
      (fun _ => At w.fault w.cwd fun fs => ∃ a b, w.fs.place w.cwd source.toPath = .ok a ∧
        w.fs.place w.cwd target.toPath = .ok b ∧ w.fs.renameat a b = .ok fs)
      fun _ s => s.fs = w.fs := by
    refine (At.call (J := fun _ fs => ∃ a b, w.fs.place w.cwd source.toPath = .ok a ∧
      w.fs.place w.cwd target.toPath = .ok b ∧ w.fs.renameat a b = .ok fs)
      fun fs u fs' acted hfs hf => ?_).weaken (fun _ hs => hs) (fun _ _ hs => hs) fun e s hs => hs.tree.1
    subst hfs
    split at hf
    · rename_i a b ha hb
      obtain ⟨fs₁, hr, heq⟩ := Rust.map_eq_ok.mp hf
      obtain ⟨-, hrest⟩ := Prod.mk.inj heq
      obtain ⟨rfl, -⟩ := Prod.mk.inj hrest
      exact ⟨a, b, ha, hb, hr⟩
    · cases hf
    · cases hf
  refine hrename.mapErr_andThen (F := fun s => s.fs = w.fs) (fun _ _ hs => hs) fun _ => .pure fun s hs => ?_
  obtain ⟨a, b, ha, hb, hr⟩ := hs.tree
  refine ⟨source, target, a, b, hsource, htarget, ha, hb, moved_of_renameat hr, fun hne hsome => ?_⟩
  by_contra hoverwrite
  obtain ⟨e, he⟩ := hreplaced a b ha hb (by simpa using hoverwrite) hne hsome
  rw [hr] at he
  cases he

/-- Nothing is removed where nothing is found. -/
theorem overwrite_triple (target : ResolvedPath) {last : Action Json}
    (hlast : Triple (At w.fault w.cwd (· = w.fs)) last (fun _ s => Relocated h p w s.fs) fun _ s => s.fs = w.fs)
    (hfree : p.overwrite = true → ∀ r, w.fs.stat w.cwd target.toPath ≠ .ok r) :
    Triple (At w.fault w.cwd (· = w.fs))
      (if p.overwrite = true then do
        if ← Fs.path_exists target.toPath then
          let _ ← Handler.removeDestination p target.toPath
          last
        else last
      else last)
      (fun _ s => Relocated h p w s.fs) fun _ s => s.fs = w.fs := by
  by_cases hoverwrite : p.overwrite = true
  · rw [if_pos hoverwrite]
    refine Triple.bind (R := fun found s => At w.fault w.cwd (· = w.fs) s ∧ found = false)
      (At.path_exists.weaken (fun _ hs => hs) (fun found s hs => ⟨hs.imp fun _ h => h.1, ?_⟩)
        fun _ _ hs => hs) fun found => .assume fun hfound => ?_
    · by_contra hfound
      obtain ⟨hfs, hstat⟩ := hs.tree
      obtain ⟨r, hstat⟩ := hstat (by simpa using hfound)
      exact hfree hoverwrite r (hfs ▸ hstat)
    · rw [if_neg (by simp [hfound])]
      exact hlast
  · rw [if_neg hoverwrite]
    exact hlast

theorem relocate_triple (verb done : String) (hnothing : NothingOverwritten h p w.fs w.cwd) :
    Triple (· = w) (h.relocate verb done p) (fun _ s => Relocated h p w s.fs) fun _ s => s.fs = w.fs := by
  unfold Handler.relocate
  refine (resolve_triple p.from).bind fun source => ?_
  refine Triple.bind (R := fun target s => At w.fault w.cwd (· = w.fs) s ∧
    (h.sandbox.resolve p.from w).1 = .ok source ∧
      (h.sandbox.resolve p.to (h.sandbox.resolve p.from w).2).1 = .ok target) ?_ fun target => ?_
  · intro s hs
    obtain ⟨hat, hsource⟩ := hs
    have htriple := resolve_triple (h := h) (w := s) p.to s rfl
    cases hrun : h.sandbox.resolve p.to s with
    | mk r s₁ =>
      rw [hrun] at htriple
      cases r with
      | error e => exact htriple.trans hat.tree
      | ok target =>
        obtain ⟨hat₁, -⟩ := htriple
        refine ⟨⟨hat₁.fault.trans hat.fault, hat₁.cwd.trans hat.cwd, hat₁.tree.trans hat.tree⟩, ?_, ?_⟩
        · rw [hsource]
        · rw [hsource, hrun]
  refine .assume fun ⟨hsource, htarget⟩ => ?_
  refine Triple.guard (fun _ s hs => hs.tree) fun hroots => ?_
  refine Triple.bind (R := fun r s => At w.fault w.cwd (· = w.fs) s ∧
    w.fs.lstat w.cwd source.toPath = .ok r) ?_ fun r => .assume fun hlstat => ?_
  · refine .mapErr (At.look.weaken (fun _ hs => hs) (fun r s hs => ?_) fun e s hs => hs.tree.1)
    obtain ⟨hfs, hr⟩ := hs.tree
    exact ⟨hs.imp fun _ h => h.1, hfs ▸ hr⟩
  refine Triple.bind (R := fun _ => At w.fault w.cwd (· = w.fs))
    (At.path_exists.weaken (fun _ hs => hs) (fun _ s hs => hs.imp fun _ h => h.1) fun _ _ hs => hs) fun found => ?_
  refine Triple.guard (fun _ s hs => hs.tree) fun _ => ?_
  dsimp only
  -- the conditions hold for the paths of this run
  obtain ⟨ha, hnode⟩ := existing_eq_ok.mp hlstat
  have hquiet := resolve_quiet h.sandbox p.from
  have hcond (b : RealPath) (hb : w.fs.place w.cwd target.toPath = .ok b) :=
    hnothing source target r.1 b ⟨w, rfl, rfl, hsource⟩ ⟨_, hquiet.fs w, hquiet.cwd w, htarget⟩
      (by simpa using fun hs => hroots (.inl hs)) (by simpa using fun ht => hroots (.inr ht))
      ha (by simp [hnode]) hb
  have hlast := overwrite_triple target (rename_triple (write_io (p.from ++ " -> " ++ p.to))
    (.obj [("from", .str (display source.path)), (done, .bool true), ("to", .str (display target.path))])
    hsource htarget fun a b ha' hb => by
      obtain rfl := Except.ok.inj (ha.symm.trans ha')
      exact (hcond b hb).2) fun hoverwrite r hstat => by
        obtain ⟨b, hb, -⟩ := place_of_stat hstat
        obtain ⟨e, he⟩ := (hcond b hb).1 hoverwrite
        rw [hstat] at he
        cases he
  by_cases hparent : target.path ≠ []
  · rw [if_pos hparent]
    refine Triple.bind (R := fun _ => At w.fault w.cwd (· = w.fs))
      (At.path_is_dir.weaken (fun _ hs => hs) (fun _ s hs => hs.imp fun _ h => h.1) fun _ _ hs => hs) fun isDir => ?_
    exact Triple.guard (fun _ s hs => hs.tree) fun _ => hlast
  · rw [if_neg hparent]
    exact hlast

/-! ## Removals -/

/-- The tree has lost something and got nothing. -/
structure Thinned (fs₀ fs : FileTree) : Prop where
  sub : Sub fs fs₀
  lost : ∃ x, fs₀.node x ≠ none ∧ fs.node x = none

theorem Thinned.of_sub (hthinned : Thinned fs₀ fs) (hsub : Sub fs' fs) : Thinned fs₀ fs' := by
  obtain ⟨hsub₀, x, hx, hnone⟩ := hthinned
  refine ⟨fun y n hy => hsub₀ y n (hsub y n hy), x, hx, ?_⟩
  by_contra hsome
  obtain ⟨n, hn⟩ := Option.ne_none_iff_exists'.mp hsome
  rw [hsub x n hn] at hnone
  cases hnone

theorem mem_children : name ∈ fs.children q ↔ fs.node (q ++ [name]) ≠ none := by
  unfold children
  rw [List.mem_filterMap]
  constructor
  · rintro ⟨x, hx, hlast⟩
    simp only [List.mem_filter, List.mem_dedup, decide_eq_true_eq] at hx
    obtain ⟨-, hne, rfl, hsome⟩ := hx
    obtain ⟨ys, rfl⟩ := List.getLast?_eq_some_iff.mp hlast
    rw [List.dropLast_concat]
    exact Option.isSome_iff_ne_none.mp hsome
  · intro hsome
    refine ⟨q ++ [name], ?_, by simp⟩
    simp only [List.mem_filter, List.mem_dedup, decide_eq_true_eq]
    exact ⟨fs.listed _ hsome, by simp, by simp, Option.isSome_iff_ne_none.mpr hsome⟩

/-- What has no entries can be removed. -/
theorem unlinkat_thins (hq : q ≠ []) (hsome : fs.node q ≠ none) (hempty : fs.children q = []) :
    ∃ fs', fs.unlinkat q = .ok fs' ∧ Thinned fs fs' := by
  have hunlink : fs.unlinkat q = .ok (fs.prune q hq) := by
    unfold unlinkat
    rw [if_neg (by simpa using hsome), if_neg (by simp [hempty]), dif_pos hq]
  refine ⟨_, hunlink, unlinkat_sub hunlink, q, hsome, ?_⟩
  rw [node_prune, if_pos List.prefix_rfl]

theorem children_of_not_dir (hdir : fs.isDir q = false) : fs.children q = [] := by
  by_contra hne
  obtain ⟨name, rest, heq⟩ := List.exists_cons_of_ne_nil hne
  have hsome := mem_children.mp (heq ▸ List.mem_cons_self : name ∈ fs.children q)
  rw [fs.isDir_iff.mpr (fs.closed q name hsome)] at hdir
  cases hdir

theorem nodup_inits (x : RealPath) : x.inits.Nodup := by
  induction x with
  | nil => simp
  | cons name x ih =>
    rw [List.inits_cons]
    exact List.nodup_cons.mpr ⟨by simp, ih.map List.cons_injective⟩

/-- No place lies deeper than there are places. -/
theorem length_lt_paths {x : RealPath} (hx : fs.node x ≠ none) : x.length < fs.paths.length := by
  have habove (y : RealPath) (hy : y <+: x) : fs.node y ≠ none := by
    obtain ⟨rest, rfl⟩ := hy
    induction rest using List.reverseRecOn with
    | nil => simpa using hx
    | append_singleton rest name ih =>
      rw [← List.append_assoc] at hx
      obtain ⟨ino, hdir⟩ := fs.closed _ name hx
      exact ih (by simp [hdir])
  have hsub : x.inits ⊆ fs.paths := fun y hy => fs.listed y (habove y ((List.mem_inits y x).mp hy))
  have hle := (List.subperm_of_subset (nodup_inits x) hsub).length_le
  rw [List.length_inits] at hle
  omega

/-- Removals keep what every smaller tree has. -/
theorem At.remove_all_upto_keeps {L : Type} {l : L} {I : FileTree → Prop}
    (hI : ∀ fs fs', Sub fs' fs → I fs → I fs') (fuel : Nat) (q : RealPath) :
    Triple (At faults cwd I) (Fs.remove_all_upto l fuel q) (fun _ => At faults cwd I)
      fun _ => At faults cwd I := by
  induction fuel generalizing q with
  | zero => exact .throw fun w hw => hw
  | succ fuel ih =>
    have hunlink (x : RealPath) :
        Triple (At faults cwd I) (Fs.unlinkat l x) (fun _ => At faults cwd I) fun _ => At faults cwd I := by
      refine (At.call (J := fun _ => I) fun fs u fs' acted hfs hf => ?_).weaken (fun _ hw => hw)
        (fun _ _ hw => hw) fun e w hw => hw.imp fun fs h => h.1
      obtain ⟨fs₁, hu, heq⟩ := Rust.map_eq_ok.mp hf
      obtain ⟨-, hrest⟩ := Prod.mk.inj heq
      obtain ⟨rfl, -⟩ := Prod.mk.inj hrest
      exact hI _ _ (unlinkat_sub hu) hfs
    have hentries : Triple (At faults cwd I) (Fs.entries l q) (fun _ => At faults cwd I)
        fun _ => At faults cwd I := by
      refine (At.call (J := fun _ => I) fun fs u fs' acted hfs hf => ?_).weaken (fun _ hw => hw)
        (fun _ _ hw => hw) fun e w hw => hw.imp fun fs h => h.1
      split_ifs at hf
      obtain ⟨-, hrest⟩ := Prod.mk.inj (Except.ok.inj hf)
      obtain ⟨rfl, -⟩ := Prod.mk.inj hrest
      exact hfs
    refine hentries.bind fun names => (Triple.forM fun entry _ => ?_).bind fun _ => hunlink q
    split_ifs
    · exact ih _
    · exact hunlink _

/-- A call that removes an entry that can be removed. -/
theorem At.unlinkat_thins {L : Type} {l : L} (hq : q ≠ []) (hsome : fs₀.node q ≠ none)
    (hempty : fs₀.children q = []) :
    Triple (At (fun _ => none) cwd (· = fs₀)) (Fs.unlinkat l q)
      (fun _ => At (fun _ => none) cwd (Thinned fs₀)) fun _ => At (fun _ => none) cwd (Thinned fs₀) := by
  obtain ⟨fs₁, hu, hthinned⟩ := Filesystem.unlinkat_thins hq hsome hempty
  refine (At.call_eq not_faulty (?_ : _ = Except.ok ((), fs₁, [(l, q)]))).weaken (fun _ hw => hw)
    (fun _ w hw => hw.1.imp fun _ hfs => hfs ▸ hthinned) fun e w hw => hw.elim
  rw [hu]
  rfl

/-- The removal of a directory takes something away, wherever it ends. -/
theorem At.remove_all_upto_thins {L : Type} {l : L} (fuel : Nat) {q : RealPath} (hq : q ≠ [])
    (hdir : fs₀.isDir q = true)
    (hdepth : ∀ x, q <+: x → fs₀.node x ≠ none → x.length < q.length + fuel) :
    Triple (At (fun _ => none) cwd (· = fs₀)) (Fs.remove_all_upto l fuel q)
      (fun _ => At (fun _ => none) cwd (Thinned fs₀)) fun _ => At (fun _ => none) cwd (Thinned fs₀) := by
  induction fuel generalizing q with
  | zero =>
    obtain ⟨ino, hino⟩ := fs₀.isDir_iff.mp hdir
    have := hdepth q List.prefix_rfl (by simp [hino])
    omega
  | succ fuel ih =>
    obtain ⟨ino, hino⟩ := fs₀.isDir_iff.mp hdir
    have hentries : Triple (At (fun _ => none) cwd (· = fs₀)) (Fs.entries l q)
        (fun names w => At (fun _ => none) cwd (· = fs₀) w ∧
          names = (fs₀.children q).map fun name => (name, fs₀.isDir (q ++ [name])))
        fun _ => At (fun _ => none) cwd (Thinned fs₀) := by
      refine (At.call_eq not_faulty (?_ : _ = Except.ok (_, _, [(l, q)]))).weaken (fun _ hw => hw) (fun _ _ hw => hw)
        fun e w hw => hw.elim
      rw [if_pos hdir]
    have hkeeps {L : Type} {l : L} (fuel : Nat) (q : RealPath) :
        Triple (At (fun _ => none) cwd (Thinned fs₀)) (Fs.remove_all_upto l fuel q)
          (fun _ => At (fun _ => none) cwd (Thinned fs₀)) fun _ => At (fun _ => none) cwd (Thinned fs₀) :=
      At.remove_all_upto_keeps (fun fs fs' hsub hthinned => hthinned.of_sub hsub) fuel q
    have hunlink (x : RealPath) :
        Triple (At (fun _ => none) cwd (Thinned fs₀)) (Fs.unlinkat l x)
          (fun _ => At (fun _ => none) cwd (Thinned fs₀)) fun _ => At (fun _ => none) cwd (Thinned fs₀) := by
      refine (At.call (J := fun _ => Thinned fs₀) fun fs u fs' acted hfs hf => ?_).weaken (fun _ hw => hw)
        (fun _ _ hw => hw) fun e w hw => hw.imp fun fs h => h.1
      obtain ⟨fs₁, hu, heq⟩ := Rust.map_eq_ok.mp hf
      obtain ⟨-, hrest⟩ := Prod.mk.inj heq
      obtain ⟨rfl, -⟩ := Prod.mk.inj hrest
      exact hfs.of_sub (unlinkat_sub hu)
    refine hentries.bind fun names => .assume fun hnames => ?_
    cases hchildren : fs₀.children q with
    | nil =>
      rw [hnames, hchildren]
      exact At.unlinkat_thins hq (by simp [hino]) hchildren
    | cons name rest =>
      have hname := mem_children.mp (hchildren ▸ List.mem_cons_self : name ∈ fs₀.children q)
      rw [hnames, hchildren]
      -- the first entry is removed, or something below it
      have hfirst : Triple (At (fun _ => none) cwd (· = fs₀))
          (if fs₀.isDir (q ++ [name]) then Fs.remove_all_upto l fuel (q ++ [name])
            else Fs.unlinkat l (q ++ [name]))
          (fun _ => At (fun _ => none) cwd (Thinned fs₀)) fun _ => At (fun _ => none) cwd (Thinned fs₀) := by
        split_ifs with hsub
        · refine ih (by simp) hsub fun x hx hsome => ?_
          have := hdepth x ((List.prefix_append _ _).trans hx) hsome
          simp only [List.length_append, List.length_singleton]
          omega
        · exact At.unlinkat_thins (by simp) hname (children_of_not_dir (by simpa using hsub))
      refine Triple.bind (hfirst.bind fun _ => Triple.forM fun entry _ => ?_) fun _ => hunlink q
      split_ifs
      · exact hkeeps fuel _
      · exact hunlink _

/-- Where no call fails for other reasons, the removal of a destination that is found takes something away,
    whatever its result. -/
theorem removeDestination_thins {target : Path} {r : RealPath × Node}
    (hstat : fs₀.stat cwd target = .ok r) (hne : ∀ b, fs₀.place cwd target = .ok b → b ≠ []) :
    Triple (At (fun _ => none) cwd (· = fs₀)) (Handler.removeDestination p target)
      (fun _ => At (fun _ => none) cwd (Thinned fs₀)) fun _ => At (fun _ => none) cwd (Thinned fs₀) := by
  obtain ⟨b, hb, hsome⟩ := place_of_stat hstat
  obtain ⟨n, hn⟩ := Option.ne_none_iff_exists'.mp hsome
  have hlstat : fs₀.lstat cwd target = .ok (b, n) := existing_eq_ok.mpr ⟨hb, hn⟩
  have hlook : Triple (At (fun _ => none) cwd (· = fs₀)) (Fs.symlink_metadata target : Io Purpose _)
      (fun r w => At (fun _ => none) cwd (· = fs₀) w ∧ r = (b, n)) fun _ _ => False :=
    At.look_eq not_faulty hlstat
  unfold Handler.removeDestination
  refine hlook.mapErr_andThen (fun _ _ hw => hw.elim) fun r => .assume fun hr => ?_
  subst hr
  dsimp only
  by_cases hdir : n.isDir = true
  · rw [if_pos hdir]
    refine .mapErr (E := fun _ => At (fun _ => none) cwd (Thinned fs₀)) ?_
    refine (hlook.weaken (fun _ hw => hw) (fun _ _ hw => hw) fun _ _ hw => hw.elim).bind fun r =>
      .assume fun hr => ?_
    subst hr
    refine Triple.bind (R := fun d w => At (fun _ => none) cwd (· = fs₀) w ∧ d = fs₀.paths.length)
      (fun w hw => ⟨hw, by rw [hw.tree]⟩) fun d => .assume fun hd => ?_
    subst hd
    refine At.remove_all_upto_thins _ (hne b hb) (by rw [isDir, hn]; exact hdir) fun x _ hx => ?_
    have := length_lt_paths hx
    omega
  · rw [if_neg hdir]
    refine .mapErr (E := fun _ => At (fun _ => none) cwd (Thinned fs₀)) ?_
    obtain ⟨fs₁, hu, hthinned⟩ := unlinkat_thins (hne b hb) hsome
      (children_of_not_dir (by rw [isDir, hn]; simpa using hdir))
    refine (At.call_eq not_faulty (?_ : _ = Except.ok ((), fs₁, [(.request, b)]))).weaken (fun _ hw => hw)
      (fun _ w hw => hw.1.imp fun _ hfs => hfs ▸ hthinned) fun e w hw => hw.elim
    rw [hlstat]
    cases n with
    | dir ino => exact absurd rfl hdir
    | _ =>
      dsimp only
      rw [hu]
      rfl

/-! ## Where something is overwritten -/

/-- A path is resolved again as it was in another world. -/
theorem resolve_again {requested : String} {r : ResolvedPath} {w s : Disk} {c : Nat} (hs : Stands fs cwd faults c s)
    (hfs : w.fs = fs) (hcwd : w.cwd = cwd) (hr : (h.sandbox.resolve requested w).1 = .ok r)
    (hfaults : ∀ i < used (h.sandbox.resolve requested) w, faults (c + i) = w.fault (w.calls + i)) :
    ∃ s', h.sandbox.resolve requested s = (.ok r, s') ∧
      Stands fs cwd faults (c + used (h.sandbox.resolve requested) w) s' := by
  have hquiet := resolve_quiet h.sandbox requested
  have halike : Alike (used (h.sandbox.resolve requested) w) w s := by
    refine ⟨hs.fs.trans hfs.symm, hs.cwd.trans hcwd.symm, fun i hi => ?_⟩
    rw [hs.fault, hs.calls]
    exact hfaults i hi
  obtain ⟨hr', -, -, hcalls⟩ := hquiet.isLocal.same w s halike
  have hfs' := hquiet.fs s
  have hcwd' := hquiet.cwd s
  have hfault := hquiet.isLocal.fault s
  cases hrun : h.sandbox.resolve requested s with
  | mk r' s' =>
    rw [hrun] at hr' hcalls hfs' hcwd' hfault
    obtain rfl : r' = .ok r := hr'.trans hr
    exact ⟨s', rfl, hfs'.trans hs.fs, hcwd'.trans hs.cwd, hfault.trans hs.fault, hcalls.trans (by rw [hs.calls])⟩

theorem resolve_root (hr : (h.sandbox.resolve p.to w).1 = .ok target) (hroot : target.is_root = false) :
    target.path ≠ [] := by
  have htriple : Triple (fun _ : Disk => True) (h.sandbox.resolve p.to)
      (fun r _ => r.is_root = false → r.path ≠ []) fun _ _ => True := by
    unfold Sandbox.resolve
    refine Triple.guard (fun _ _ _ => trivial) fun _ => ?_
    dsimp only
    refine Triple.guard (fun _ _ _ => trivial) fun _ => ?_
    refine Triple.bind (R := fun _ _ => True) (fun s _ => ?_) fun r => ?_
    · split <;> trivial
    · split
      · rename_i root hfind
        refine .pure fun s _ hnot hnil => ?_
        have hbegins := List.find?_some hfind
        simp only [decide_eq_true_eq, decide_eq_false_iff_not] at hbegins hnot
        change r.1 ++ r.2.reverse = [] at hnil
        rw [hnil] at hbegins hnot
        exact hnot (List.prefix_nil.mp hbegins).symm
      · exact .throw fun _ _ => trivial
  cases hrun : h.sandbox.resolve p.to w with
  | mk r s =>
    rw [hrun] at hr
    obtain rfl : r = .ok target := hr
    exact htriple.ok trivial hrun hroot

/-- What is left to do once source and target are checked. -/
def finish (p : RenameParams) (done : String) (source target : ResolvedPath) : Action Json :=
  let last : Action Json := do
    mapErr (Fs.rename Purpose.request Purpose.request source.toPath target.toPath)
      (write_io (p.from ++ " -> " ++ p.to))
    return .obj [("from", .str (display source.path)), (done, .bool true), ("to", .str (display target.path))]
  if p.overwrite = true then do
    if ← Fs.path_exists target.toPath then
      let _ ← Handler.removeDestination p target.toPath
      last
    else last
  else last

/-- The calls that fail up to the end: those of the two worlds in which the paths were resolved, and one more. -/
def faultsOf (w₁ w₂ : Disk) (k₁ k₂ bad : Nat) (n : Nat) : Option IoError :=
  if n < k₁ then w₁.fault (w₁.calls + n)
  else if n < k₁ + k₂ then w₂.fault (w₂.calls + (n - k₁))
  else if n = bad then some (.other "")
  else none

/-- The checks of a rename pass, whichever calls fail when the paths are resolved. -/
theorem relocate_eq_finish (verb done : String) {w₁ w₂ : Disk} (hfs₁ : w₁.fs = fs) (hcwd₁ : w₁.cwd = cwd)
    (hfs₂ : w₂.fs = fs) (hcwd₂ : w₂.cwd = cwd) (hsource : (h.sandbox.resolve p.from w₁).1 = .ok source)
    (htarget : (h.sandbox.resolve p.to w₂).1 = .ok target) (hsourceRoot : source.is_root = false)
    (htargetRoot : target.is_root = false) (ha : fs.place cwd source.toPath = .ok a) (hasome : fs.node a ≠ none)
    (hb : fs.place cwd target.toPath = .ok b) {bad k₁ k₂ : Nat}
    (hk₁ : k₁ = used (h.sandbox.resolve p.from) w₁) (hk₂ : k₂ = used (h.sandbox.resolve p.to) w₂)
    (hbad : bad = k₁ + k₂ + 1 ∧ p.overwrite = false ∨ k₁ + k₂ + 2 < bad ∧ p.overwrite = true) :
    ∃ s, h.relocate verb done p { fs, cwd, fault := faultsOf w₁ w₂ k₁ k₂ bad } =
        finish p done source target s ∧ Stands fs cwd (faultsOf w₁ w₂ k₁ k₂ bad) (k₁ + k₂ + 3) s ∧
      (h.sandbox.resolve p.from { fs, cwd, fault := faultsOf w₁ w₂ k₁ k₂ bad }).1 = .ok source ∧
      (h.sandbox.resolve p.to
        (h.sandbox.resolve p.from { fs, cwd, fault := faultsOf w₁ w₂ k₁ k₂ bad }).2).1 = .ok target := by
  subst hk₁ hk₂
  generalize hk₁ : used (h.sandbox.resolve p.from) w₁ = k₁ at *
  generalize hk₂ : used (h.sandbox.resolve p.to) w₂ = k₂ at *
  have hlater (n : Nat) (hn : k₁ + k₂ ≤ n) (hne : n ≠ bad) : faultsOf w₁ w₂ k₁ k₂ bad n = none := by
    unfold faultsOf
    rw [if_neg (by omega), if_neg (by omega), if_neg hne]
  have hs₀ : Stands fs cwd (faultsOf w₁ w₂ k₁ k₂ bad) 0
      ({ fs, cwd, fault := faultsOf w₁ w₂ k₁ k₂ bad } : Disk) := ⟨rfl, rfl, rfl, rfl⟩
  obtain ⟨s₁, hrun₁, hs₁⟩ := resolve_again hs₀ hfs₁ hcwd₁ hsource fun i hi => by
    unfold faultsOf
    rw [if_pos (by omega), Nat.zero_add]
  rw [hk₁, Nat.zero_add] at hs₁
  obtain ⟨s₂, hrun₂, hs₂⟩ := resolve_again hs₁ hfs₂ hcwd₂ htarget fun i hi => by
    unfold faultsOf
    rw [if_neg (by omega), if_pos (by omega), show k₁ + i - k₁ = i by omega]
  rw [hk₂] at hs₂
  obtain ⟨n, hn⟩ := Option.ne_none_iff_exists'.mp hasome
  obtain ⟨s₃, hrun₃, hs₃⟩ := hs₂.look (f := fun fs cwd => fs.lstat cwd source.toPath)
    (hlater _ le_rfl (by omega)) (existing_eq_ok.mpr ⟨ha, hn⟩)
  obtain ⟨found, s₄, hrun₄, hs₄, hseen⟩ := hs₃.path_exists (ε := String) target.toPath
  -- the parent of the target is a directory
  have hne := resolve_root htarget htargetRoot
  obtain ⟨above, name, hpath⟩ := (List.eq_nil_or_concat' target.path).resolve_left hne
  have hb' : fs.place cwd (.ofNames (above ++ [name])) = .ok b := hpath ▸ hb
  obtain ⟨-, d, ino, hd, hdir, -⟩ := place_ofNames.mp hb'
  have hstat : fs.stat cwd (.ofNames target.path.dropLast) = .ok (d, .dir ino) := by
    rw [hpath, List.dropLast_concat]
    exact stat_ofNames.mpr ⟨hd, hdir⟩
  obtain ⟨s₅, hrun₅, hs₅⟩ := hs₄.path_is_dir (ε := String) (hlater _ (by omega) (by omega)) hstat
  refine ⟨s₅, ?_, hs₅, by rw [hrun₁], by rw [hrun₁, hrun₂]⟩
  unfold Handler.relocate
  have hrun₃' : mapErr (Fs.symlink_metadata source.toPath) (not_found_or_io p.from) s₂ = (.ok (a, n), s₃) :=
    mapErr_eq hrun₃
  rw [Local.bind_eq hrun₁, Local.bind_eq hrun₂, if_neg (by simp [hsourceRoot, htargetRoot])]
  dsimp only
  rw [Local.bind_eq hrun₃', Local.bind_eq hrun₄]
  have hpass : ¬ (found = true ∧ ¬ p.overwrite = true) := by
    rintro ⟨hfound, hoverwrite⟩
    rcases hbad with ⟨rfl, -⟩ | ⟨-, hset⟩
    · have hfault : faultsOf w₁ w₂ k₁ k₂ (k₁ + k₂ + 1) (k₁ + k₂ + 1) ≠ none := by
        unfold faultsOf
        rw [if_neg (by omega), if_neg (by omega), if_pos rfl]
        nofun
      exact hfault (hseen.mp hfound).1
    · exact hoverwrite hset
  rw [if_neg hpass]
  rw [if_pos hne, Local.bind_eq hrun₅, if_neg (by simp)]
  rfl

theorem removeDestination_local (target : Path) : Local (Handler.removeDestination p target) := by
  unfold Handler.removeDestination
  refine Local.symlink_metadata.mapErr.bind fun (_, n) => ?_
  show Local (if n.isDir = true then _ else _)
  by_cases hdir : n.isDir = true
  · rw [if_pos hdir]
    exact Local.remove_dir_all.mapErr
  · rw [if_neg hdir]
    exact Local.call.mapErr

/-- Only where nothing is overwritten is a rename all or nothing whatever calls fail. -/
theorem nothingOverwritten_of_allOrNothing (verb done : String)
    (hall : ∀ w : Disk, w.fs = fs → w.cwd = cwd →
      AllOrNothing h p w (h.relocate verb done p w).1 (h.relocate verb done p w).2.fs) :
    NothingOverwritten h p fs cwd := by
  rintro source target a b ⟨w₁, hfs₁, hcwd₁, hsource⟩ ⟨w₂, hfs₂, hcwd₂, htarget⟩ hsourceRoot htargetRoot ha hasome hb
  generalize hk₁ : used (h.sandbox.resolve p.from) w₁ = k₁
  generalize hk₂ : used (h.sandbox.resolve p.to) w₂ = k₂
  have hbegins (bad : Nat) (hbad : bad = k₁ + k₂ + 1 ∧ p.overwrite = false ∨
      k₁ + k₂ + 2 < bad ∧ p.overwrite = true) :=
    relocate_eq_finish verb done hfs₁ hcwd₁ hfs₂ hcwd₂ hsource htarget hsourceRoot htargetRoot ha hasome hb
      hk₁.symm hk₂.symm hbad
  refine ⟨fun hoverwrite => ?_, fun hoverwrite hne hbsome => ?_⟩
  · by_contra hfound
    push Not at hfound
    obtain ⟨r, hstat⟩ : ∃ r, fs.stat cwd target.toPath = .ok r := by
      cases hr : fs.stat cwd target.toPath with
      | ok r => exact ⟨r, rfl⟩
      | error e => exact absurd hr (hfound e)
    -- the rename fails, after the destination was removed as in a world without failures
    have hcalm : At (fun _ => none) cwd (· = fs) ({ fs, cwd } : Disk) := ⟨rfl, rfl, rfl⟩
    have hnil : ∀ b', fs.place cwd target.toPath = .ok b' → b' ≠ [] := by
      intro b' hb' hnil
      obtain ⟨above, name, hpath⟩ :=
        (List.eq_nil_or_concat' target.path).resolve_left (resolve_root htarget htargetRoot)
      have hb'' : fs.place cwd (.ofNames (above ++ [name])) = .ok b' := hpath ▸ hb'
      obtain ⟨-, d, ino, -, -, rfl⟩ := place_ofNames.mp hb''
      simp at hnil
    have hthins := (removeDestination_thins (p := p) hstat hnil).final hcalm
    have hlocal := removeDestination_local (p := p) target.toPath
    generalize hu : used (Handler.removeDestination p target.toPath) { fs, cwd } = u
    obtain ⟨s, heq, hs, -, -⟩ := hbegins (k₁ + k₂ + 4 + u) (.inr ⟨by omega, hoverwrite⟩)
    have hlater (n : Nat) (hn : k₁ + k₂ ≤ n) (hne : n ≠ k₁ + k₂ + 4 + u) :
        faultsOf w₁ w₂ k₁ k₂ (k₁ + k₂ + 4 + u) n = none := by
      unfold faultsOf
      rw [if_neg (by omega), if_neg (by omega), if_neg hne]
    obtain ⟨found, s₁, hrun₁, hs₁, hseen⟩ := hs.path_exists (ε := String) target.toPath
    obtain rfl := hseen.mpr ⟨hlater _ (by omega) (by omega), r, hstat⟩
    have halike : Alike (used (Handler.removeDestination p target.toPath) { fs, cwd }) { fs, cwd } s₁ := by
      refine ⟨hs₁.fs, hs₁.cwd, fun i hi => ?_⟩
      rw [hs₁.fault, hs₁.calls]
      exact hlater _ (by omega) (by omega)
    obtain ⟨-, hfsR, -, hcallsR⟩ := hlocal.same _ _ halike
    have hfaultR := hlocal.fault s₁
    obtain ⟨x, hx, hnone⟩ := hthins.tree.lost
    rw [← hfsR] at hnone
    obtain ⟨e, hfailed⟩ : ∃ e s₂, finish p done source target s = (.error e, s₂) ∧ s₂.fs.node x = none := by
      unfold finish
      rw [if_pos hoverwrite, Local.bind_eq hrun₁, if_pos rfl]
      cases hrunR : Handler.removeDestination p target.toPath s₁ with
      | mk rR s₂ =>
        rw [hrunR] at hnone hcallsR hfaultR
        cases rR with
        | error e => exact ⟨e, s₂, Local.bind_eq_error hrunR, hnone⟩
        | ok u' =>
          have hfault : s₂.fault s₂.calls = some (.other "") := by
            rw [hfaultR, hs₁.fault, hcallsR, hs₁.calls, hu]
            unfold faultsOf
            rw [if_neg (by omega), if_neg (by omega), if_pos rfl]
          have hrename : mapErr (Fs.rename Purpose.request Purpose.request source.toPath target.toPath)
              (write_io (p.from ++ " -> " ++ p.to)) s₂ =
                (.error (write_io (p.from ++ " -> " ++ p.to) (.other "")), s₂.tick) := by
            unfold Fs.rename mapErr
            rw [call_fails hfault]
            rfl
          exact ⟨_, s₂.tick, by rw [Local.bind_eq hrunR, Local.bind_eq_error hrename], hnone⟩
    obtain ⟨s₂, hrun, hlost⟩ := hfailed
    have hnothing := (hall { fs, cwd, fault := faultsOf w₁ w₂ k₁ k₂ (k₁ + k₂ + 4 + u) } rfl rfl).error e
      (by rw [heq, hrun]) x
    rw [heq, hrun] at hnothing
    exact hx (hnothing.symm.trans hlost)
  · by_contra hreplaced
    push Not at hreplaced
    obtain ⟨fs', hr⟩ : ∃ fs', fs.renameat a b = .ok fs' := by
      cases hr : fs.renameat a b with
      | ok fs' => exact ⟨fs', rfl⟩
      | error e => exact absurd hr (hreplaced e)
    obtain ⟨s, heq, hs, hsource', htarget'⟩ := hbegins (k₁ + k₂ + 1) (.inl ⟨rfl, hoverwrite⟩)
    have hfault : s.fault s.calls = none := by
      rw [hs.fault, hs.calls]
      unfold faultsOf
      rw [if_neg (by omega), if_neg (by omega), if_neg (by omega)]
    obtain ⟨s₁, hrename⟩ : ∃ s₁, mapErr (Fs.rename Purpose.request Purpose.request source.toPath target.toPath)
        (write_io (p.from ++ " -> " ++ p.to)) s = (.ok (), s₁) := by
      refine ⟨{ s.tick with fs := fs', log := s.log ++ [(.request, a), (.request, b)] }, mapErr_eq ?_⟩
      unfold Fs.rename Posix.call
      rw [hfault, hs.fs, hs.cwd]
      dsimp only
      rw [ha, hb]
      dsimp only
      rw [hr]
      rfl
    have hok := (hall { fs, cwd, fault := faultsOf w₁ w₂ k₁ k₂ (k₁ + k₂ + 1) } rfl rfl).ok _ (by
      rw [heq]
      unfold finish
      rw [if_neg (by simp [hoverwrite]), Local.bind_eq hrename]
      rfl)
    obtain ⟨source', target', a', b', hs', ht', ha', hb', -, hold⟩ := hok
    obtain rfl := Except.ok.inj (hsource'.symm.trans hs')
    obtain rfl := Except.ok.inj (htarget'.symm.trans ht')
    obtain rfl := Except.ok.inj (ha.symm.trans ha')
    obtain rfl := Except.ok.inj (hb.symm.trans hb')
    rw [hold hne hbsome] at hoverwrite
    cases hoverwrite

/-! ## The whole of renames and moves -/

theorem relocate_allOrNothing_of (verb done : String) {w : Disk} (hnothing : NothingOverwritten h p w.fs w.cwd) :
    AllOrNothing h p w (h.relocate verb done p w).1 (h.relocate verb done p w).2.fs := by
  have htriple := relocate_triple verb done hnothing
  constructor
  · intro e he x
    rw [htriple.error rfl (Prod.ext he rfl)]
  · intro json hok
    exact htriple.ok rfl (Prod.ext hok rfl)

theorem room_data : FileTree.empty.Room ["data"] := by decide

theorem ino_data (ino : Nat) (h : Node.dir 1 = .dir ino) : ino = FileTree.empty.nextIno :=
  (Node.dir.inj h).symm

/-- `/data` with a file in it. -/
def oneFile : FileTree :=
  let data := FileTree.empty.insert ["data"] (.dir 1) room_data ino_data
  data.insert ["data", "a"] (.file [120]) (by decide) nofun

/-- A handler that may touch `/data`. -/
def dataHandler : Handler where
  sandbox := { roots := [["data"]] }
  config := { max_list_entries := 1000, max_read_bytes := MAX_READ_BYTES_HARD_CAP }
  env := {
    serde := .compact
    decode_base64 := fun _ => .error "Invalid padding"
    encode_base64 := fun _ => ""
    xdg_data_home := none
    home := none
    deletion_date := ""
    len := fun _ _ => 0
    modified_unix_ms := fun _ _ => none }

/-- A file is renamed to itself. -/
def toItself : RenameParams where
  «from» := "/data/a"
  «to» := "/data/a"
  overwrite := true

end Filesystem
