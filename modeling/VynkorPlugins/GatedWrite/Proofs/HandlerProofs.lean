import VynkorPlugins.Base.Proofs.DirectoryProofs
import VynkorPlugins.GatedWrite.Handler

/-!
# Proofs: what a confirmed write changes

A write that is contained changes nothing outside of the data directory, and only the contained ones do.
-/

namespace GatedWrite

open Hoare Posix FileTree

variable {fs fs' fs₀ : FileTree} {cwd root q : RealPath} {target parent : Path} {params : WriteParams}
  {faults : Nat → Option IoError} {data : List UInt8}

/-! ## The target -/

/-- The tree once the parent of the target is checked: it has grown inside of the data directory, the parent is
    in there, and the target is no link. -/
structure Checked (root : RealPath) (fs₀ : FileTree) (cwd : RealPath) (target parent : Path)
    (fs : FileTree) : Prop where
  grown : Grown root fs₀ fs
  made : fs = fs₀ ∨ ∃ d, Fresh root fs₀ cwd parent fs d
  inside : ∃ d, LeadsTo fs cwd parent d ∧ root <+: d
  noLink : ∀ q t, fs.lstat cwd target ≠ .ok (q, .symlink t)

/-- A target that can be a file is its parent and a name. -/
theorem target_components (hparent : target.parent = some parent) :
    (∃ ds name, target.components = parent.components ++ ds ++ [.normal name] ∧ Dots ds) ∨
      ∃ cs c, target.components = cs ++ [c] ∧ ∀ name, c ≠ .normal name := by
  obtain ⟨-, ds, c, es, heq, hds, hes, -⟩ := parent_eq_some hparent
  rcases List.eq_nil_or_concat' es with rfl | ⟨es', e, rfl⟩
  · by_cases hc : ∃ name, c = .normal name
    · obtain ⟨name, rfl⟩ := hc
      exact .inl ⟨ds, name, heq, hds⟩
    · push Not at hc
      exact .inr ⟨_, c, heq, hc⟩
  · obtain rfl := hes e (by simp)
    rw [← List.cons_append, ← List.append_assoc] at heq
    exact .inr ⟨_, .curDir, heq, nofun⟩

/-- What a target names, unless it is a directory, is an entry of its parent. -/
theorem place_target (hparent : target.parent = some parent) (hplace : fs.place cwd target = .ok q)
    (hdir : fs.isDir q = false) : ∃ d name, LeadsTo fs cwd parent d ∧ q = d ++ [name] := by
  obtain ⟨habsolute, -⟩ := parent_eq_some hparent
  have horigin : origin cwd parent = origin cwd target := by simp [origin, habsolute]
  rcases target_components hparent with ⟨ds, name, heq, hds⟩ | ⟨cs, c, heq, hc⟩
  · obtain ⟨-, d, k, ino, hway, hd, rfl⟩ := (place_eq_ok heq).mp hplace
    exact ⟨d, name, ⟨k, horigin ▸ (Way.append_dots hd hds).mp hway⟩, rfl⟩
  · rw [place_eq_follow fun cs' name h => hc name ?_] at hplace
    · obtain ⟨-, -, k, hway⟩ := follow_eq_ok.mp hplace
      rw [heq] at hway
      rw [hway.isDir_end hc] at hdir
      cases hdir
    · obtain ⟨-, hlast⟩ := List.append_inj' (heq.symm.trans h) rfl
      exact List.head_eq_of_cons_eq hlast

/-- In a new directory there was nothing. -/
theorem same_of_entry {d : RealPath} (name : String)
    (hmade : fs = fs₀ ∨ ∃ d, Fresh root fs₀ cwd parent fs d) (hlead : LeadsTo fs cwd parent d)
    (hsome : fs₀.node (d ++ [name]) ≠ none) : fs = fs₀ := by
  rcases hmade with heq | ⟨d', hfresh⟩
  · exact heq
  · obtain rfl := hfresh.leads.unique hlead
    obtain ⟨ino, hdir⟩ := fs₀.closed _ name hsome
    rw [hfresh.new] at hdir
    cases hdir

/-- The file that a checked target leads to lies in the data directory. If it exists, no directory was made. -/
theorem Checked.follow (h : Checked root fs₀ cwd target parent fs) (hparent : target.parent = some parent)
    (hq : fs.follow cwd target = .ok q) (hdir : fs.isDir q = false) :
    root <+: q ∧ fs.place cwd target = .ok q ∧ (fs₀.node q ≠ none → fs = fs₀) := by
  obtain ⟨-, hvalid, k, hway⟩ := follow_eq_ok.mp hq
  have hplace : fs.place cwd target = .ok q := by
    rcases target_components hparent with ⟨ds, name, heq, -⟩ | ⟨cs, c, heq, hc⟩
    · rw [heq] at hway
      obtain ⟨d, k₁, hd, hlast⟩ := hway.split
      cases hlast with
      | entry hdirD _ hstay =>
        cases hstay
        exact (place_eq_ok heq).mpr ⟨hvalid, d, k, _, hd, hdirD, rfl⟩
      | link hdirD hlink _ =>
        refine absurd (existing_eq_ok.mpr ⟨(place_eq_ok heq).mpr ?_, hlink⟩) (h.noLink _ _)
        exact ⟨hvalid, d, _, _, hd, hdirD, rfl⟩
    · rw [heq] at hway
      rw [hway.isDir_end hc] at hdir
      cases hdir
  obtain ⟨d, name, hlead, rfl⟩ := place_target hparent hplace hdir
  obtain ⟨d', hd', hinside⟩ := h.inside
  obtain rfl := hd'.unique hlead
  exact ⟨hinside.trans (List.prefix_append _ _), hplace, same_of_entry _ h.made hlead⟩

/-! ## Writing -/

/-- The target leads to a file with some data in the data directory, and nothing else is changed but for new
    directories in there. -/
structure Written (root : RealPath) (fs₀ : FileTree) (cwd : RealPath) (target : Path) (q : RealPath)
    (data : List UInt8) (fs : FileTree) : Prop where
  named : ¬ (¬ target.absolute = true ∧ target.components = [])
  leads : LeadsTo fs cwd target q
  inside : root <+: q
  file : fs.node q = some (.file data)
  others : ∀ x, x ≠ q → fs.node x = fs₀.node x ∨
    fs₀.node x = none ∧ root <+: x ∧ ∃ ino, fs.node x = some (.dir ino)

/-- Nothing outside of the data directory is changed. -/
def Outside (root : RealPath) (fs₀ fs : FileTree) : Prop :=
  ∀ x, ¬ root <+: x → fs.node x = fs₀.node x

theorem Written.outside {d : List UInt8} (h : Written root fs₀ cwd target q d fs) : Outside root fs₀ fs := by
  intro x hx
  rcases h.others x (fun hq => hx (hq ▸ h.inside)) with heq | ⟨-, hinside, -⟩
  · exact heq
  · exact absurd hinside hx

theorem outside_of_grown (h : Grown root fs₀ fs) : Outside root fs₀ fs := by
  intro x hx
  rcases h x with heq | ⟨-, hinside, -⟩
  · exact heq
  · exact absurd hinside hx

theorem Written.setFile {d : List UInt8} (h : Written root fs₀ cwd target q d fs)
    (hset : fs.setFile q data = .ok fs') : Written root fs₀ cwd target q data fs' := by
  rcases setFile_eq_ok hset with ⟨⟨d', hother⟩, -⟩ | ⟨hq, hnode⟩
  · rw [h.file] at hother
    cases hother
  · refine ⟨h.named, h.leads.setFile hq hnode, h.inside, by rw [hnode, if_pos rfl], fun x hx => ?_⟩
    rw [hnode, if_neg hx]
    exact h.others x hx

/-- The target of a contained write is opened: what it held before is what the tree had there. -/
theorem Checked.open (h : Checked root fs₀ cwd target parent fs) (hparent : target.parent = some parent)
    (hregular : ∀ q data, fs₀.lstat cwd target = .ok (q, .other data) → ¬ root <+: q)
    (hq : fs.follow cwd target = .ok q) (hset : fs.setFile q data = .ok fs') :
    Written root fs₀ cwd target q data fs' ∧ fs.data q = fs₀.data q := by
  obtain ⟨hempty, -, hlead⟩ := follow_eq_ok.mp hq
  obtain ⟨hinside, hplace, hsame⟩ := h.follow hparent hq (setFile_ok hset).1
  have hold (e : Node) (he : fs.node q = some e) (hdir : ∀ ino, e ≠ .dir ino) :
      fs₀.node q = some e := by
    rcases h.grown q with heq | ⟨-, -, ino, hnew⟩
    · exact heq.symm.trans he
    · obtain rfl := Option.some.inj (he.symm.trans hnew)
      exact absurd rfl (hdir ino)
  rcases setFile_eq_ok hset with ⟨⟨d, hother⟩, -⟩ | ⟨hfile, hnode⟩
  · have hother₀ := hold _ hother fun ino h => by cases h
    obtain rfl := hsame (by simp [hother₀])
    exact absurd hinside (hregular q d (existing_eq_ok.mpr ⟨hplace, hother⟩))
  · refine ⟨⟨hempty, hlead.setFile hfile hnode, hinside, by rw [hnode, if_pos rfl], fun x hx => ?_⟩, ?_⟩
    · rw [hnode, if_neg hx]
      exact h.grown x
    · rcases hfile with hnone | ⟨d, hd⟩
      · have hnone₀ : fs₀.node q = none := by
          by_contra hsome
          obtain ⟨e, he⟩ := Option.ne_none_iff_exists'.mp hsome
          have := h.grown.sub _ _ he
          rw [hnone] at this
          cases this
        simp [FileTree.data, hnone, hnone₀]
      · simp [FileTree.data, hd, hold _ hd fun ino h => by cases h]

/-- The two ways to write, from a tree in which the target is checked. -/
theorem write_target (hparent : target.parent = some parent)
    (hregular : ∀ q data, fs₀.lstat cwd target = .ok (q, .other data) → ¬ root <+: q)
    (content : List UInt8) :
    Triple (At faults cwd (Checked root fs₀ cwd target parent))
      (mapErr (Fs.write () target content) WriteError.write)
      (fun _ => At faults cwd fun fs => ∃ q, Written root fs₀ cwd target q content fs)
      fun _ => At faults cwd (Outside root fs₀) := by
  refine .mapErr (E := fun _ => At faults cwd (Outside root fs₀)) ?_
  have hcreate : Triple (At faults cwd (Checked root fs₀ cwd target parent)) (Fs.create () target)
      (fun q => At faults cwd (Written root fs₀ cwd target q []))
      fun _ => At faults cwd (Outside root fs₀) := by
    refine (At.call (J := fun q => Written root fs₀ cwd target q []) fun fs a fs' acted hfs hf => ?_).weaken
      (fun _ hw => hw) (fun _ _ hQ => hQ) fun e w hE => hE.imp fun fs h => outside_of_grown h.1.grown
    split at hf
    · cases hf
    · rename_i q hq
      obtain ⟨fs₁, hset, heq⟩ := Rust.map_eq_ok.mp hf
      obtain ⟨rfl, hrest⟩ := Prod.mk.inj heq
      obtain ⟨rfl, -⟩ := Prod.mk.inj hrest
      exact (hfs.open hparent hregular hq hset).1
  refine hcreate.bind fun q => ?_
  refine (At.call (J := fun _ fs => ∃ q, Written root fs₀ cwd target q content fs)
    fun fs a fs' acted hfs hf => ?_).weaken
    (fun _ hw => hw) (fun _ _ hQ => hQ) fun e w hE => hE.imp fun fs h => h.1.outside
  obtain ⟨fs₁, hset, heq⟩ := Rust.map_eq_ok.mp hf
  obtain ⟨-, hrest⟩ := Prod.mk.inj heq
  obtain ⟨rfl, -⟩ := Prod.mk.inj hrest
  exact ⟨q, hfs.setFile hset⟩

theorem append_target (hparent : target.parent = some parent)
    (hregular : ∀ q data, fs₀.lstat cwd target = .ok (q, .other data) → ¬ root <+: q)
    (content : List UInt8) :
    Triple (At faults cwd (Checked root fs₀ cwd target parent))
      (do
        let f ← mapErr (Fs.open_append () target) WriteError.openTarget
        mapErr (Fs.append_all () f content) WriteError.write)
      (fun _ => At faults cwd fun fs =>
        ∃ q, Written root fs₀ cwd target q (fs₀.data q ++ content) fs)
      fun _ => At faults cwd (Outside root fs₀) := by
  have hopen : Triple (At faults cwd (Checked root fs₀ cwd target parent))
      (mapErr (Fs.open_append () target) WriteError.openTarget)
      (fun q => At faults cwd (Written root fs₀ cwd target q (fs₀.data q)))
      fun _ => At faults cwd (Outside root fs₀) := by
    refine .mapErr (E := fun _ => At faults cwd (Outside root fs₀)) ?_
    refine (At.call (J := fun q => Written root fs₀ cwd target q (fs₀.data q))
      fun fs a fs' acted hfs hf => ?_).weaken
      (fun _ hw => hw) (fun _ _ hQ => hQ) fun e w hE => hE.imp fun fs h => outside_of_grown h.1.grown
    split at hf
    · cases hf
    · rename_i q hq
      obtain ⟨fs₁, hset, heq⟩ := Rust.map_eq_ok.mp hf
      obtain ⟨rfl, hrest⟩ := Prod.mk.inj heq
      obtain ⟨rfl, -⟩ := Prod.mk.inj hrest
      obtain ⟨hwritten, hdata⟩ := hfs.open hparent hregular hq hset
      rw [← hdata]
      exact hwritten
  refine hopen.bind fun q => .mapErr (E := fun _ => At faults cwd (Outside root fs₀)) ?_
  refine (At.call (J := fun _ fs => ∃ q, Written root fs₀ cwd target q (fs₀.data q ++ content) fs)
    fun fs a fs' acted hfs hf => ?_).weaken
    (fun _ hw => hw) (fun _ _ hQ => hQ) fun e w hE => hE.imp fun fs h => h.1.outside
  obtain ⟨fs₁, hset, heq⟩ := Rust.map_eq_ok.mp hf
  obtain ⟨-, hrest⟩ := Prod.mk.inj heq
  obtain ⟨rfl, -⟩ := Prod.mk.inj hrest
  have hdata : fs.data q = fs₀.data q := by simp [FileTree.data, hfs.file]
  rw [hdata] at hset
  exact ⟨q, hfs.setFile hset⟩

/-! ## The whole write -/

theorem gated_error {e : WriteError} (h : Outside root fs₀ fs) : Gated root params cwd fs₀ fs (.error e) :=
  ⟨h, nofun⟩

theorem Written.gated {n : Nat}
    (h : Written root fs₀ cwd target q
      ((if params.append then fs₀.data q else []) ++ params.content.toByteArray.toList) fs) :
    Gated root params cwd fs₀ fs (.ok (target, n)) := by
  refine ⟨h.outside, ?_⟩
  rintro path n hr
  obtain ⟨rfl, rfl⟩ := Prod.mk.inj (Except.ok.inj hr)
  refine ⟨q, stat_eq_ok.mpr ⟨h.named, h.leads, h.file⟩, fun x hx hold => ?_⟩
  rcases h.others x hx with heq | ⟨hnone, -⟩
  · exact heq
  · exact absurd hnone hold

variable {data_dir : Path} {ino : Nat}

theorem safe_target_eq_ok (h : safe_target data_dir params.path = .ok target) :
    target.absolute = data_dir.absolute ∧
      ∃ rel, target.components = data_dir.components ++ rel ∧ .parentDir ∉ rel ∧ rel ≠ [] := by
  unfold safe_target at h
  dsimp only at h
  split_ifs at h with habsolute hback
  obtain rfl := Except.ok.inj h
  refine ⟨rfl, _, rfl, hback, ?_⟩
  simp [Path.parse, List.splitOn_ne_nil]

/-- The path of the data directory is asked for, and the rest of the path has no `..`. -/
theorem grounded_parent (hroot : fs₀.stat cwd data_dir = .ok (root, .dir ino))
    (htarget : safe_target data_dir params.path = .ok target) (hparent : target.parent = some parent) :
    Grounded fs₀ cwd parent := by
  obtain ⟨-, ⟨k, hway⟩, hdir⟩ := stat_eq_ok.mp hroot
  obtain ⟨habsolute, rel, hrel, hback, -⟩ := safe_target_eq_ok htarget
  obtain ⟨habsolute', rest, heq, -⟩ := parent_prefix hparent
  have horigin : origin cwd parent = origin cwd data_dir := by simp [origin, habsolute, habsolute']
  refine ⟨horigin ▸ hway.start (by simp [hdir]), fun cs ds hcs => ?_⟩
  have hall : data_dir.components ++ rel = cs ++ .parentDir :: (ds ++ rest) := by
    rw [← hrel, heq, hcs, List.append_assoc]
    rfl
  rw [horigin]
  rcases List.append_eq_append_iff.mp hall with ⟨as, -, hrest⟩ | ⟨as, hdata, hrest⟩
  · exact absurd (by simp [hrest]) hback
  · cases as with
    | nil =>
      rw [List.nil_append] at hrest
      exact absurd (hrest ▸ List.mem_cons_self) hback
    | cons a as =>
      rw [hdata] at hway
      obtain ⟨q, k', hq, hrest⟩ := hway.split
      exact ⟨q, k', hq, hrest.start (by simp [hdir])⟩

/-- The target cannot be a link unseen: no call fails unless the tree tells it to, or it is none. -/
def NoHiddenLink (faults : Nat → Option IoError) (fs : FileTree) (cwd : RealPath) (target : Path) : Prop :=
  ¬ Faulty faults ∨ target.Valid ∧ ∀ q t, fs.lstat cwd target ≠ .ok (q, .symlink t)

theorem create_parent (hgrounded : Grounded fs₀ cwd parent) (hparent : target.parent = some parent)
    (hcontained : Contained fs₀ cwd root target) (hlink : NoHiddenLink faults fs₀ cwd target) :
    Triple (At faults cwd (· = fs₀)) (mapErr (Fs.create_dir_all () parent) WriteError.createParent)
      (fun _ => At faults cwd fun fs =>
        Grown root fs₀ fs ∧ (fs = fs₀ ∨ ∃ d, Fresh root fs₀ cwd parent fs d))
      fun e => At faults cwd fun fs => Gated root params cwd fs₀ fs (.error e) := by
  refine .mapErr ?_
  by_cases hvalid : parent.Valid
  · exact (At.create_dir_all_upto hgrounded (hcontained.missing parent hparent hvalid) _).weaken
      (fun _ hw => hw) (fun _ _ hw => hw) fun e w hw => hw.imp fun fs h => gated_error (outside_of_grown h)
  · have hfaults : ¬ Faulty faults := by
      refine hlink.resolve_right fun h => hvalid fun c hc => h.1 c ?_
      obtain ⟨-, rest, heq, -⟩ := parent_prefix hparent
      rw [heq]
      exact List.mem_append_left _ hc
    refine (At.create_dir_all_upto_invalid hfaults hvalid _).weaken (fun _ hw => hw)
      (fun _ w hw => hw.imp fun fs h => ?_) fun e w hw => hw.imp fun fs h => ?_
    · exact ⟨h ▸ .refl, .inl h⟩
    · exact gated_error (outside_of_grown (h ▸ .refl))

theorem write_checked (faults : Nat → Option IoError) (params : WriteParams)
    (hparent : target.parent = some parent)
    (hregular : ∀ q data, fs₀.lstat cwd target = .ok (q, .other data) → ¬ root <+: q) :
    Triple (At faults cwd (Checked root fs₀ cwd target parent))
      (if params.append then do
        let f ← mapErr (Fs.open_append () target) WriteError.openTarget
        mapErr (Fs.append_all () f params.content.toByteArray.toList) WriteError.write
        pure (target, params.content.toByteArray.toList.length)
      else do
        mapErr (Fs.write () target params.content.toByteArray.toList) WriteError.write
        pure (target, params.content.toByteArray.toList.length))
      (fun r => At faults cwd fun fs => Gated root params cwd fs₀ fs (.ok r))
      fun e => At faults cwd fun fs => Gated root params cwd fs₀ fs (.error e) := by
  have hend (e : WriteError) (w : World Unit) (hw : At faults cwd (Outside root fs₀) w) :
      At faults cwd (fun fs => Gated root params cwd fs₀ fs (.error e)) w :=
    hw.imp fun fs h => gated_error h
  by_cases happend : params.append = true
  · rw [if_pos happend]
    have happended : Triple (At faults cwd (Checked root fs₀ cwd target parent)) _ _ _ :=
      (append_target hparent hregular params.content.toByteArray.toList).bind
      (f := fun _ => pure (target, params.content.toByteArray.toList.length)) fun _ =>
        .pure (Q := fun r => At faults cwd fun fs => Gated root params cwd fs₀ fs (.ok r)) fun w hw =>
          hw.imp fun fs h => ?_
    · rw [bind_assoc] at happended
      exact happended.weaken (fun _ hw => hw) (fun _ _ hw => hw) hend
    · obtain ⟨q, hwritten⟩ := h
      refine Written.gated (q := q) ?_
      rw [if_pos happend]
      exact hwritten
  · rw [if_neg happend]
    refine ((write_target hparent hregular _).weaken (fun _ hw => hw) (fun _ _ hw => hw) hend).bind
      fun _ => .pure fun w hw => hw.imp fun fs h => ?_
    obtain ⟨q, hwritten⟩ := h
    refine Written.gated (q := q) ?_
    rw [if_neg happend]
    exact hwritten

/-- A target that could not be looked at is no link. -/
theorem noLink_of_error {e : IoError} (hparent : target.parent = some parent) (hgrown : Grown root fs₀ fs)
    (hmade : fs = fs₀ ∨ ∃ d, Fresh root fs₀ cwd parent fs d) (hlink : NoHiddenLink faults fs₀ cwd target)
    (he : Faulty faults ∨ fs.lstat cwd target = .error e) (q : RealPath) (t : Path) :
    fs.lstat cwd target ≠ .ok (q, .symlink t) := by
  intro hsymlink
  rcases he with hfaulty | he
  · obtain ⟨-, hnone⟩ := hlink.resolve_left (not_not.mpr hfaulty)
    obtain ⟨hplace, hnode⟩ := existing_eq_ok.mp hsymlink
    obtain ⟨d, name, hlead, rfl⟩ := place_target hparent hplace (by simp [isDir, hnode, Node.isDir])
    have hold : fs₀.node (d ++ [name]) = some (.symlink t) := by
      rcases hgrown (d ++ [name]) with heq | ⟨-, -, ino, hnew⟩
      · exact heq ▸ hnode
      · rw [hnode] at hnew
        cases hnew
    obtain rfl := same_of_entry name hmade hlead (by simp [hold])
    exact hnone _ t hsymlink
  · rw [hsymlink] at he
    cases he

/-- A contained write keeps to the data directory, whichever of its calls fail, and does what it says. -/
theorem execute_write_contained (hroot : fs₀.stat cwd data_dir = .ok (root, .dir ino))
    (hcontained : WriteContained fs₀ cwd root data_dir params)
    (hlink : ∀ target, safe_target data_dir params.path = .ok target → NoHiddenLink faults fs₀ cwd target) :
    Triple (At faults cwd (· = fs₀)) (execute_write data_dir params)
      (fun r => At faults cwd fun fs => Gated root params cwd fs₀ fs (.ok r))
      fun e => At faults cwd fun fs => Gated root params cwd fs₀ fs (.error e) := by
  have herror {e : WriteError} (w : World Unit) (hw : At faults cwd (Grown root fs₀) w) :
      At faults cwd (fun fs => Gated root params cwd fs₀ fs (.error e)) w :=
    hw.imp fun fs h => gated_error (outside_of_grown h)
  unfold execute_write
  cases htarget : safe_target data_dir params.path with
  | error e =>
    exact .throw_bind fun w hw => herror w (hw.imp fun fs h => h ▸ .refl)
  | ok target =>
    change Triple _ (pure target >>= _) _ _
    rw [pure_bind]
    cases hparent : target.parent with
    | none =>
      dsimp only
      refine Triple.bind (R := fun _ => At faults cwd (· = fs₀)) (.mapErr ?_) fun _ =>
        .throw fun w hw => herror w (hw.imp fun fs h => h ▸ .refl)
      exact At.look.weaken (fun _ hw => hw) (fun _ w hw => hw.imp fun fs h => h.1)
        fun e w hw => herror w (hw.imp fun fs h => h.1 ▸ .refl)
    | some parent =>
      dsimp only
      have hgrounded := grounded_parent hroot htarget hparent
      refine (create_parent hgrounded hparent (hcontained target htarget) (hlink target htarget)).bind
        fun _ => ?_
      -- the data directory is where it was
      refine Triple.bind (R := fun canonical_data w => At faults cwd (fun fs =>
        Grown root fs₀ fs ∧ (fs = fs₀ ∨ ∃ d, Fresh root fs₀ cwd parent fs d)) w ∧ canonical_data = root)
        (.mapErr (At.look.weaken (fun _ hw => hw) (fun c w hw => ?_)
          fun e w hw => herror w (hw.imp fun fs h => h.1.1))) fun canonical_data => .assume fun hdata => ?_
      · refine ⟨hw.imp fun fs h => h.1, ?_⟩
        obtain ⟨-, hlead, hdir⟩ := stat_eq_ok.mp hroot
        obtain ⟨⟨hgrown, -⟩, hcanonical⟩ := hw.tree
        exact (canonicalize_eq_ok.mp hcanonical).2.1.unique (hlead.mono hgrown.sub (by simp [hdir]))
      subst hdata
      refine Triple.bind (R := fun c => At faults cwd (fun fs =>
        (Grown canonical_data fs₀ fs ∧ (fs = fs₀ ∨ ∃ d, Fresh canonical_data fs₀ cwd parent fs d)) ∧
          LeadsTo fs cwd parent c))
        (.mapErr (At.look.weaken (fun _ hw => hw) (fun c w hw => hw.imp fun fs h => ⟨h.1, ?_⟩)
          fun e w hw => herror w (hw.imp fun fs h => h.1.1))) fun canonical_parent => ?_
      · exact (canonicalize_eq_ok.mp h.2).2.1
      refine Triple.guard (fun _ w hw => herror w (hw.imp fun fs h => h.1.1)) fun hinside => ?_
      rw [not_not] at hinside
      have hwrite := write_checked faults params hparent
        (hcontained target htarget).regular
      refine At.look.attempt_bind (fun r => ?_) fun e => ?_
      · obtain ⟨q, n⟩ := r
        cases n with
        | symlink t =>
          exact .throw_bind fun w hw => herror w (hw.imp fun fs h => h.1.1.1)
        | _ =>
          refine hwrite.pre fun w hw => hw.imp fun fs h => ⟨h.1.1.1, h.1.1.2, ⟨_, h.1.2, hinside⟩, ?_⟩
          intro q' t hlink'
          rw [h.2] at hlink'
          cases hlink'
      · refine hwrite.pre fun w hw => hw.imp fun fs h => ⟨h.1.1.1, h.1.1.2, ⟨_, h.1.2, hinside⟩, ?_⟩
        exact noLink_of_error hparent h.1.1.1 h.1.1.2 (hlink target htarget) h.2

/-! ## Writes that are not contained -/

theorem isDir_setFile {x : RealPath} (hx : fs.isDir x = true) (h : fs.setFile q data = .ok fs') :
    fs'.isDir x = true := by
  obtain ⟨hdir, rfl | hnode⟩ := setFile_ok h
  · exact hx
  · have hne : x ≠ q := by
      rintro rfl
      rw [hdir] at hx
      cases hx
    rw [isDir, hnode, if_neg hne]
    exact hx

/-- A call that writes to a file leaves the directories. -/
theorem call_keeps_dir {L α : Type} {x : RealPath}
    {f : FileTree → RealPath → Except IoError (α × FileTree × List (L × RealPath))}
    (h : ∀ fs a fs' acted, f fs cwd = .ok (a, fs', acted) → fs' = fs ∨ ∃ q data, fs.setFile q data = .ok fs') :
    Triple (At faults cwd fun fs => fs.isDir x = true) (Posix.call f)
      (fun _ => At faults cwd fun fs => fs.isDir x = true)
      fun _ => At faults cwd fun fs => fs.isDir x = true := by
  refine (At.call (J := fun _ fs => fs.isDir x = true) fun fs a fs' acted hx hf => ?_).weaken
    (fun _ hw => hw) (fun _ _ hw => hw) fun e w hw => hw.imp fun fs h => h.1
  rcases h fs a fs' acted hf with rfl | ⟨q, data, hset⟩
  · exact hx
  · exact isDir_setFile hx hset

theorem look_keeps_dir {L α : Type} {x : RealPath} {f : FileTree → RealPath → Except IoError α} :
    Triple (At faults cwd fun fs => fs.isDir x = true) (Fs.look f : Io L α)
      (fun _ => At faults cwd fun fs => fs.isDir x = true)
      fun _ => At faults cwd fun fs => fs.isDir x = true := by
  refine At.look.weaken (fun _ hw => hw) (fun _ w hw => ?_) fun e w hw => ?_
  · exact hw.imp fun fs h => h.1
  · exact hw.imp fun fs h => h.1

/-- What comes after the parent is made leaves a directory that was made. -/
theorem execute_write_makes {x : RealPath} (htarget : safe_target data_dir params.path = .ok target)
    (hparent : target.parent = some parent)
    (hmake : Triple (At faults cwd (· = fs₀)) (Fs.create_dir_all () parent)
      (fun _ => At faults cwd fun fs => fs.isDir x = true)
      fun _ => At faults cwd fun fs => fs.isDir x = true) :
    Triple (At faults cwd (· = fs₀)) (execute_write data_dir params)
      (fun _ => At faults cwd fun fs => fs.isDir x = true)
      fun _ => At faults cwd fun fs => fs.isDir x = true := by
  have hset {α : Type} {fs fs' : FileTree} {q : RealPath} {a b : α} {acted acted' : List (Unit × RealPath)}
      {data : List UInt8}
      (h : (fs.setFile q data).map (fun fs => (a, fs, acted)) = .ok (b, fs', acted')) :
      fs' = fs ∨ ∃ q data, fs.setFile q data = .ok fs' := by
    obtain ⟨fs₁, hset, heq⟩ := Rust.map_eq_ok.mp h
    obtain ⟨-, hrest⟩ := Prod.mk.inj heq
    obtain ⟨rfl, -⟩ := Prod.mk.inj hrest
    exact .inr ⟨q, data, hset⟩
  have hcreate : Triple (At faults cwd fun fs => fs.isDir x = true) (Fs.create () target)
      (fun _ => At faults cwd fun fs => fs.isDir x = true)
      fun _ => At faults cwd fun fs => fs.isDir x = true := by
    refine call_keeps_dir fun fs a fs' acted hf => ?_
    split at hf
    · cases hf
    · exact hset hf
  have hopen : Triple (At faults cwd fun fs => fs.isDir x = true) (Fs.open_append () target)
      (fun _ => At faults cwd fun fs => fs.isDir x = true)
      fun _ => At faults cwd fun fs => fs.isDir x = true := by
    refine call_keeps_dir fun fs a fs' acted hf => ?_
    split at hf
    · cases hf
    · exact hset hf
  have hwriteAll (q : RealPath) : Triple (At faults cwd fun fs => fs.isDir x = true)
      (Fs.write_all () q params.content.toByteArray.toList)
      (fun _ => At faults cwd fun fs => fs.isDir x = true)
      fun _ => At faults cwd fun fs => fs.isDir x = true :=
    call_keeps_dir fun fs a fs' acted hf => hset hf
  have happendAll (q : RealPath) : Triple (At faults cwd fun fs => fs.isDir x = true)
      (Fs.append_all () q params.content.toByteArray.toList)
      (fun _ => At faults cwd fun fs => fs.isDir x = true)
      fun _ => At faults cwd fun fs => fs.isDir x = true :=
    call_keeps_dir fun fs a fs' acted hf => hset hf
  have hwrite : Triple (At faults cwd fun fs => fs.isDir x = true)
      (if params.append then do
        let f ← mapErr (Fs.open_append () target) WriteError.openTarget
        mapErr (Fs.append_all () f params.content.toByteArray.toList) WriteError.write
        pure (target, params.content.toByteArray.toList.length)
      else do
        mapErr (Fs.write () target params.content.toByteArray.toList) WriteError.write
        pure (target, params.content.toByteArray.toList.length))
      (fun _ => At faults cwd fun fs => fs.isDir x = true)
      fun _ => At faults cwd fun fs => fs.isDir x = true := by
    split_ifs
    · exact hopen.mapErr_andThen (fun _ _ hw => hw) fun q =>
        (happendAll q).mapErr_andThen (fun _ _ hw => hw) fun _ => .pure fun w hw => hw
    · exact (hcreate.bind hwriteAll).mapErr_andThen (fun _ _ hw => hw) fun _ => .pure fun w hw => hw
  unfold execute_write
  rw [htarget]
  change Triple _ (pure target >>= _) _ _
  rw [pure_bind, hparent]
  dsimp only
  refine hmake.mapErr_andThen (fun _ _ hw => hw) fun _ =>
    look_keeps_dir.mapErr_andThen (fun _ _ hw => hw) fun canonical_data =>
      look_keeps_dir.mapErr_andThen (fun _ _ hw => hw) fun canonical_parent =>
        Triple.guard (fun _ w hw => hw) fun _ => ?_
  refine look_keeps_dir.attempt_bind (fun r => ?_) fun e => hwrite
  obtain ⟨q, n⟩ := r
  cases n with
  | symlink t => exact .throw_bind fun w hw => hw
  | _ => exact hwrite

/-- A directory that is missing outside of the data directory gets made. -/
theorem missing_of_gated (hfaults : ¬ Faulty faults) {w : World Unit} (hw : At faults cwd (· = fs₀) w)
    (hroot : fs₀.stat cwd data_dir = .ok (root, .dir ino))
    (htarget : safe_target data_dir params.path = .ok target) (hparent : target.parent = some parent)
    (hgated : Gated root params cwd fs₀ (execute_write data_dir params w).2.fs (execute_write data_dir params w).1)
    (hvalid : parent.Valid) : fs₀.MissingInside cwd root parent := by
  intro cs name ds hcs q k hwalk hdir hnone
  by_contra hinside
  obtain ⟨ino', hd⟩ := fs₀.isDir_iff.mp hdir
  obtain rfl := faults_eq hfaults
  have hmake := At.create_dir_all_upto_makes (L := Unit) (l := ()) hcs hvalid (parent_trimmed hparent)
    (way_of_walk hwalk) hd hnone (show _ < parent.components.length + 1 by rw [hcs]; simp; omega)
  have hmade := ((execute_write_makes htarget hparent hmake).final hw).tree
  have houtside : ¬ root <+: q ++ [name] := by
    intro h
    rcases List.prefix_concat_iff.mp h with heq | h
    · obtain ⟨-, -, hr⟩ := stat_eq_ok.mp hroot
      rw [heq, hnone] at hr
      cases hr
    · exact hinside h
  rw [isDir, hgated.outside _ houtside, hnone] at hmade
  cases hmade

/-- A device or a pipe in the data directory is written to, and holds nothing afterwards. -/
theorem execute_write_other {w : World Unit} (hfaults : ¬ Faulty faults) (hw : At faults cwd (· = fs₀) w)
    (hroot : fs₀.stat cwd data_dir = .ok (root, .dir ino))
    (htarget : safe_target data_dir params.path = .ok target)
    (hother : fs₀.lstat cwd target = .ok (q, .other data)) (hinside : root <+: q) :
    ∃ n w', execute_write data_dir params w = (.ok (target, n), w') ∧ w'.fs = fs₀ := by
  obtain ⟨hplace, hq⟩ := existing_eq_ok.mp hother
  obtain ⟨hdata, -, hr⟩ := stat_eq_ok.mp hroot
  obtain ⟨habsolute, rel, hrel, -, hne⟩ := safe_target_eq_ok htarget
  -- the target is a name in a directory
  obtain ⟨cs, name, hcs⟩ : ∃ cs name, target.components = cs ++ [.normal name] := by
    by_contra hp
    push Not at hp
    have hdir := isDir_of_place hp hplace
    rw [isDir, hq] at hdir
    cases hdir
  obtain ⟨hvalid, d, k, ino', hway, hdir, rfl⟩ := (place_eq_ok hcs).mp hplace
  have hparent := parent_concat hcs
  have hstat : fs₀.stat cwd { target with components := Path.trimmed { target with components := cs } } =
      .ok (d, .dir ino') := by
    refine stat_eq_ok.mpr ⟨?_, ⟨k, ?_⟩, hdir⟩
    · rintro ⟨hrelative, hnil⟩
      obtain rfl := trimmed_eq_nil hnil (by simpa using hrelative)
      refine hdata ⟨habsolute ▸ hrelative, ?_⟩
      rw [hrel] at hcs
      have hlen := congrArg List.length hcs
      have hpos := List.length_pos_iff.mpr hne
      simp only [List.length_append, List.nil_append, List.length_singleton] at hlen
      exact List.length_eq_zero_iff.mp (by omega)
    · obtain ⟨ds, hds, hdots⟩ := components_eq_trimmed { target with components := cs }
      rw [show cs = _ from hds] at hway
      exact (Way.append_dots hdir hdots).mp hway
  have hroot' : root <+: d := by
    rcases List.prefix_concat_iff.mp hinside with heq | h
    · rw [heq, hq] at hr
      cases hr
    · exact h
  have hfollow : fs₀.follow cwd target = .ok (d ++ [name]) := by
    refine follow_eq_ok.mpr ⟨by simp [hcs], hvalid, k, ?_⟩
    rw [hcs]
    exact hway.append (.entry hdir (fun t ht => by simp [hq] at ht) .stay)
  have hset (bytes : List UInt8) : fs₀.setFile (d ++ [name]) bytes = .ok fs₀ := by
    unfold setFile
    rw [hq]
  have hcreate : Triple (At faults cwd (· = fs₀)) (Fs.create () target)
      (fun r w => At faults cwd (· = fs₀) w ∧ r = d ++ [name]) fun _ _ => False := by
    refine At.call_eq hfaults (?_ : _ = Except.ok (_, _, [((), d ++ [name])]))
    rw [hfollow]
    dsimp only
    rw [hset]
    rfl
  have hopen : Triple (At faults cwd (· = fs₀)) (Fs.open_append () target)
      (fun r w => At faults cwd (· = fs₀) w ∧ r = d ++ [name]) fun _ _ => False := by
    refine At.call_eq hfaults (?_ : _ = Except.ok (_, _, [((), d ++ [name])]))
    rw [hfollow]
    dsimp only
    rw [hset]
    rfl
  have hwriteAll : Triple (At faults cwd (· = fs₀))
      (Fs.write_all () (d ++ [name]) params.content.toByteArray.toList)
      (fun r w => At faults cwd (· = fs₀) w ∧ r = ()) fun _ _ => False := by
    refine At.call_eq hfaults (?_ : _ = Except.ok (_, _, [((), d ++ [name])]))
    rw [hset]
    rfl
  have happendAll : Triple (At faults cwd (· = fs₀))
      (Fs.append_all () (d ++ [name]) params.content.toByteArray.toList)
      (fun r w => At faults cwd (· = fs₀) w ∧ r = ()) fun _ _ => False := by
    refine At.call_eq hfaults (?_ : _ = Except.ok (_, _, [((), d ++ [name])]))
    rw [hset]
    rfl
  have hcanonical {p : Path} {x : RealPath} {n : Node} (h : fs₀.stat cwd p = .ok (x, n)) :
      fs₀.canonicalize cwd p = .ok x := by
    rw [FileTree.canonicalize, h]
    rfl
  have hrun : Triple (At faults cwd (· = fs₀)) (execute_write data_dir params)
      (fun r w => At faults cwd (· = fs₀) w ∧ r.1 = target) fun _ _ => False := by
    unfold execute_write
    rw [htarget]
    change Triple _ (pure target >>= _) _ _
    rw [pure_bind, hparent]
    dsimp only
    refine (At.create_dir_all_upto_existing hfaults hstat).mapErr_andThen (fun _ _ hw => hw) fun _ => ?_
    refine (At.look_eq hfaults (hcanonical hroot)).mapErr_andThen (fun _ _ hw => hw) fun x => .assume fun hx => ?_
    refine (At.look_eq hfaults (hcanonical hstat)).mapErr_andThen (fun _ _ hw => hw) fun y => .assume fun hy => ?_
    subst hx hy
    refine Triple.guard (fun h => absurd hroot' h) fun _ => ?_
    refine (At.look_eq hfaults hother).attempt_bind (fun r => .assume fun hr => ?_) fun e w hw => hw.elim
    subst hr
    dsimp only
    split_ifs
    · refine hopen.mapErr_andThen (fun _ _ hw => hw) fun x => .assume fun hx => ?_
      subst hx
      exact happendAll.mapErr_andThen (fun _ _ hw => hw) fun _ => .pure fun w hw => ⟨hw.1, rfl⟩
    · have hwrite : Triple (At faults cwd (· = fs₀))
          (Fs.write () target params.content.toByteArray.toList)
          (fun r w => At faults cwd (· = fs₀) w ∧ r = ()) fun _ _ => False :=
        hcreate.bind fun x => .assume fun hx => hx ▸ hwriteAll
      exact hwrite.mapErr_andThen (fun _ _ hw => hw) fun _ => .pure fun w hw => ⟨hw.1, rfl⟩
  cases hm : execute_write data_dir params w with
  | mk r w' =>
    cases r with
    | error e => exact (hrun.error hw hm).elim
    | ok r =>
      obtain ⟨hw', rfl⟩ := hrun.ok hw hm
      exact ⟨r.2, w', rfl, hw'.tree⟩

/-- Only contained writes keep to the data directory and do what they say, where no call fails for other
    reasons than the tree. -/
theorem contained_of_gated (hfaults : ¬ Faulty faults) {w : World Unit} (hw : At faults cwd (· = fs₀) w)
    (hroot : fs₀.stat cwd data_dir = .ok (root, .dir ino))
    (hgated : Gated root params cwd fs₀ (execute_write data_dir params w).2.fs (execute_write data_dir params w).1) :
    WriteContained fs₀ cwd root data_dir params := by
  intro target htarget
  refine ⟨fun parent hparent hvalid => missing_of_gated hfaults hw hroot htarget hparent hgated hvalid,
    fun q data hother hinside => ?_⟩
  obtain ⟨n, w', hm, hfs⟩ := execute_write_other hfaults hw hroot htarget hother hinside
  rw [hm] at hgated
  obtain ⟨x, hstat, -⟩ := hgated.written target n rfl
  -- the target leads where it is, and there is no file
  obtain ⟨hplace, hq⟩ := existing_eq_ok.mp hother
  rw [hfs] at hstat
  obtain ⟨-, ⟨k, hway⟩, hx⟩ := stat_eq_ok.mp hstat
  obtain ⟨cs, name, hcs⟩ : ∃ cs name, target.components = cs ++ [.normal name] := by
    by_contra hp
    push Not at hp
    have hdir := isDir_of_place hp hplace
    rw [isDir, hq] at hdir
    cases hdir
  obtain ⟨-, d, k', ino', hd, hdir, rfl⟩ := (place_eq_ok hcs).mp hplace
  have hentry (t : Path) : fs₀.node (d ++ [name]) ≠ some (.symlink t) := by
    rw [hq]
    intro h
    cases h
  have hway' := hd.append (.entry hdir hentry (.stay : Way fs₀ _ _ [] _ _))
  rw [← hcs] at hway'
  obtain ⟨rfl, -⟩ := hway.unique hway'
  rw [hq] at hx
  cases hx

/-! ## Results -/

/-- A confirmed write keeps to the real data directory, and does what it says if it succeeds, exactly if it is
    contained. Where calls may fail for other reasons than the tree, it does so for a contained target that is
    no link. -/
theorem execute_write_gated_iff (w : World Unit) (data_dir : Path) (params : WriteParams)
    {root : RealPath} {ino : Nat} (hroot : w.fs.stat w.cwd data_dir = .ok (root, .dir ino)) :
    (w.Calm →
      (Gated root params w.cwd w.fs (execute_write data_dir params w).2.fs (execute_write data_dir params w).1 ↔
        WriteContained w.fs w.cwd root data_dir params)) ∧
    (WriteContained w.fs w.cwd root data_dir params →
      (∀ target, safe_target data_dir params.path = .ok target →
        target.Valid ∧ ∀ q t, w.fs.lstat w.cwd target ≠ .ok (q, .symlink t)) →
      Gated root params w.cwd w.fs (execute_write data_dir params w).2.fs
        (execute_write data_dir params w).1) := by
  have hw : At w.fault w.cwd (· = w.fs) w := ⟨rfl, rfl, rfl⟩
  have hgated (hcontained : WriteContained w.fs w.cwd root data_dir params)
      (hlink : ∀ target, safe_target data_dir params.path = .ok target →
        NoHiddenLink w.fault w.fs w.cwd target) :
      Gated root params w.cwd w.fs (execute_write data_dir params w).2.fs
        (execute_write data_dir params w).1 := by
    have htriple := execute_write_contained hroot hcontained hlink
    cases hm : execute_write data_dir params w with
    | mk r w' =>
      cases r with
      | ok r => exact (htriple.ok hw hm).tree
      | error e => exact (htriple.error hw hm).tree
  refine ⟨fun hcalm => ?_, fun hcontained hlink => ?_⟩
  · have hfaults : ¬ Faulty w.fault := fun ⟨n, hn⟩ => hn (hcalm n)
    refine ⟨contained_of_gated hfaults hw hroot, fun hcontained => ?_⟩
    exact hgated hcontained fun target _ => .inl hfaults
  · exact hgated hcontained fun target htarget => .inr (hlink target htarget)

/-- `/data` with a link to `/out` in it. -/
def linkedTree : FileTree :=
  let data := FileTree.empty.insert ["data"] (.dir 1) (by decide) fun _ h => (Node.dir.inj h).symm
  let out := data.insert ["out"] (.dir 2) (by decide) fun _ h => (Node.dir.inj h).symm
  out.insert ["data", "link"] (.symlink (.ofNames ["out"])) (by decide) nofun

/-- A write to `link/new/file`, which is refused. -/
def throughLink : WriteParams where
  path := "link/new/file"
  content := "x"
  append := false

theorem linkedTree_stat : linkedTree.stat [] (.ofNames ["data"]) = .ok (["data"], .dir 1) := by
  refine stat_ofNames.mpr ⟨leads_names (n := .dir 1) ?_ rfl, ?_⟩ <;> decide

theorem execute_write_gated_iff_link :
    Gated ["data"] throughLink [] linkedTree
      (execute_write (.ofNames ["data"]) throughLink { fs := linkedTree }).2.fs
      (execute_write (.ofNames ["data"]) throughLink { fs := linkedTree }).1 ↔
      WriteContained linkedTree [] ["data"] (.ofNames ["data"]) throughLink :=
  (execute_write_gated_iff { fs := linkedTree } (.ofNames ["data"]) throughLink linkedTree_stat).1 fun _ => rfl

/-- The write is refused, but the directory that its path names through the link is made in `/out`. -/
theorem execute_write_not_gated :
    (execute_write (.ofNames ["data"]) throughLink { fs := linkedTree }).1.toOption = none ∧
      linkedTree.node ["out", "new"] = none ∧
      ((execute_write (.ofNames ["data"]) throughLink { fs := linkedTree }).2.fs.node ["out", "new"]).isSome ∧
      ¬ Gated ["data"] throughLink [] linkedTree
        (execute_write (.ofNames ["data"]) throughLink { fs := linkedTree }).2.fs
        (execute_write (.ofNames ["data"]) throughLink { fs := linkedTree }).1 := by
  have hmade : ((execute_write (.ofNames ["data"]) throughLink { fs := linkedTree }).2.fs.node
      ["out", "new"]).isSome := by decide +kernel
  have hbefore : linkedTree.node ["out", "new"] = none := by decide +kernel
  refine ⟨by decide +kernel, hbefore, hmade, fun hgated => ?_⟩
  rw [hgated.outside _ (by decide +kernel), hbefore] at hmade
  cases hmade

end GatedWrite
