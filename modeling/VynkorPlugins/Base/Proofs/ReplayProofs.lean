import VynkorPlugins.Base.Proofs.DirectoryProofs

/-!
# Proofs: what a run depends on

A computation does the same in two worlds with the same tree in which its own calls fail alike, whatever the
numbers of these calls are and whatever calls fail later.
-/

namespace Posix

open Hoare FileTree

variable {L ε ε' α β : Type} {w w' : World L} {m : Comp (World L) ε α}

/-- The next `k` calls of two worlds with the same tree fail alike. -/
structure Alike (k : Nat) (w w' : World L) : Prop where
  fs : w'.fs = w.fs
  cwd : w'.cwd = w.cwd
  fault : ∀ i < k, w'.fault (w'.calls + i) = w.fault (w.calls + i)

theorem Alike.mono {k j : Nat} (h : Alike k w w') (hj : j ≤ k) : Alike j w w' :=
  ⟨h.fs, h.cwd, fun i hi => h.fault i (by omega)⟩

/-- How many calls a computation makes. -/
def used (m : Comp (World L) ε α) (w : World L) : Nat :=
  (m w).2.calls - w.calls

/-- A computation makes calls one after another, and depends on nothing else. -/
structure Local (m : Comp (World L) ε α) : Prop where
  calls : ∀ w, w.calls ≤ (m w).2.calls
  fault : ∀ w, (m w).2.fault = w.fault
  same : ∀ w w', Alike (used m w) w w' → (m w').1 = (m w).1 ∧ (m w').2.fs = (m w).2.fs ∧
    (m w').2.cwd = (m w).2.cwd ∧ (m w').2.calls = w'.calls + used m w

namespace Local

theorem pure {a : α} : Local (pure a : Comp (World L) ε α) := by
  refine ⟨fun _ => le_rfl, fun _ => rfl, fun w w' h => ⟨rfl, h.fs, h.cwd, ?_⟩⟩
  show w'.calls = w'.calls + (w.calls - w.calls)
  omega

theorem throw {e : ε} : Local (throw e : Comp (World L) ε α) := by
  refine ⟨fun _ => le_rfl, fun _ => rfl, fun w w' h => ⟨rfl, h.fs, h.cwd, ?_⟩⟩
  show w'.calls = w'.calls + (w.calls - w.calls)
  omega

theorem bind_eq {m : Comp (World L) ε β} {f : β → Comp (World L) ε α} {w w₁ : World L} {b : β}
    (h : m w = (.ok b, w₁)) : (m >>= f) w = f b w₁ := by
  show ExceptT.bindCont f (m w).1 (m w).2 = f b w₁
  rw [h]
  rfl

theorem bind_eq_error {m : Comp (World L) ε β} {f : β → Comp (World L) ε α} {w w₁ : World L} {e : ε}
    (h : m w = (.error e, w₁)) : (m >>= f) w = (.error e, w₁) := by
  show ExceptT.bindCont f (m w).1 (m w).2 = (.error e, w₁)
  rw [h]
  rfl

theorem bind {m : Comp (World L) ε β} {f : β → Comp (World L) ε α} (hm : Local m)
    (hf : ∀ b, Local (f b)) : Local (m >>= f) := by
  refine ⟨fun w => ?_, fun w => ?_, fun w w' h => ?_⟩
  · have hle := hm.calls w
    cases hrun : m w with
    | mk r w₁ =>
      rw [hrun] at hle
      cases r with
      | error e =>
        rw [bind_eq_error hrun]
        exact hle
      | ok b =>
        rw [bind_eq hrun]
        exact hle.trans ((hf b).calls w₁)
  · have hsame := hm.fault w
    cases hrun : m w with
    | mk r w₁ =>
      rw [hrun] at hsame
      cases r with
      | error e =>
        rw [bind_eq_error hrun]
        exact hsame
      | ok b =>
        rw [bind_eq hrun]
        exact ((hf b).fault w₁).trans hsame
  · have hle := hm.calls w
    have hfault := hm.fault w
    have hfault' := hm.fault w'
    have hsame := hm.same w w'
    unfold used at h hsame ⊢
    cases hrun : m w with
    | mk r w₁ =>
      rw [hrun] at hle hfault hsame
      cases r with
      | error e =>
        rw [bind_eq_error hrun] at h ⊢
        obtain ⟨hr, hfs, hcwd, hcalls⟩ := hsame h
        cases hrun' : m w' with
        | mk r' w₁' =>
          rw [hrun'] at hr hfs hcwd hcalls
          obtain rfl : r' = .error e := hr
          rw [bind_eq_error hrun']
          exact ⟨rfl, hfs, hcwd, hcalls⟩
      | ok b =>
        have hle' := (hf b).calls w₁
        rw [bind_eq hrun] at h ⊢
        dsimp only at hle hfault hsame
        obtain ⟨hr, hfs, hcwd, hcalls⟩ := hsame (h.mono (by omega))
        cases hrun' : m w' with
        | mk r' w₁' =>
          rw [hrun'] at hr hfs hcwd hcalls hfault'
          obtain rfl : r' = .ok b := hr
          rw [bind_eq hrun']
          dsimp only at hfs hcwd hcalls hfault'
          have halike : Alike ((f b w₁).2.calls - w₁.calls) w₁ w₁' := by
            refine ⟨hfs, hcwd, fun i hi => ?_⟩
            rw [hfault', hfault, hcalls]
            have hnext := h.fault (w₁.calls - w.calls + i) (by omega)
            rw [show w₁.calls + i = w.calls + (w₁.calls - w.calls + i) by omega,
              show w'.calls + (w₁.calls - w.calls) + i = w'.calls + (w₁.calls - w.calls + i) by omega]
            exact hnext
          obtain ⟨hr, hfs, hcwd, hcalls'⟩ := (hf b).same w₁ w₁' halike
          unfold used at hcalls'
          exact ⟨hr, hfs, hcwd, by omega⟩

theorem attempt (hm : Local m) : Local (Hoare.attempt m : Comp (World L) ε' (Except ε α)) := by
  refine ⟨hm.calls, hm.fault, fun w w' h => ?_⟩
  obtain ⟨hr, hrest⟩ := hm.same w w' h
  refine ⟨?_, hrest⟩
  show Except.ok (m w').1 = Except.ok (m w).1
  rw [hr]

theorem mapErr {g : ε → ε'} (hm : Local m) : Local (Hoare.mapErr m g) := by
  refine ⟨hm.calls, hm.fault, fun w w' h => ?_⟩
  obtain ⟨hr, hrest⟩ := hm.same w w' h
  refine ⟨?_, hrest⟩
  show (m w').1.mapError g = (m w).1.mapError g
  rw [hr]

theorem call {f : FileTree → RealPath → Except IoError (α × FileTree × List (L × RealPath))} :
    Local (Posix.call f) := by
  have hcalls (w : World L) : (Posix.call f w).2.calls = w.calls + 1 := by
    unfold Posix.call
    split
    · rfl
    · split <;> rfl
  refine ⟨fun w => by rw [hcalls]; omega, fun w => ?_, fun w w' h => ?_⟩
  · unfold Posix.call
    split
    · rfl
    · split <;> rfl
  · unfold used at h ⊢
    have hfault : w'.fault w'.calls = w.fault w.calls := h.fault 0 (by rw [hcalls]; omega)
    refine ⟨?_, ?_, ?_, by rw [hcalls, hcalls]; omega⟩
    all_goals
      unfold Posix.call
      rw [hfault, h.fs, h.cwd]
      cases w.fault w.calls with
      | some e => first | rfl | exact h.fs | exact h.cwd
      | none =>
        cases f w.fs w.cwd <;> first | rfl | exact h.fs | exact h.cwd

theorem look {f : FileTree → RealPath → Except IoError α} : Local (Fs.look f : Io L α) := by
  unfold Fs.look
  exact call

theorem symlink_metadata {p : Path} : Local (Fs.symlink_metadata p : Io L (RealPath × Node)) := look

theorem forM {f : β → Comp (World L) ε PUnit} {xs : List β} (hf : ∀ b ∈ xs, Local (f b)) :
    Local (xs.forM f) := by
  induction xs with
  | nil => exact .pure
  | cons b xs ih =>
    show Local (f b >>= fun _ => xs.forM f)
    exact (hf b (by simp)).bind fun _ => ih fun b' hb' => hf b' (by simp [hb'])

theorem remove_all_upto {l : L} (fuel : Nat) (q : RealPath) : Local (Fs.remove_all_upto l fuel q) := by
  induction fuel generalizing q with
  | zero => exact .throw
  | succ fuel ih =>
    refine Local.bind call fun names => (Local.forM fun entry _ => ?_).bind fun _ => call
    split_ifs
    · exact ih _
    · exact call

theorem depth : Local (Fs.depth : Io L Nat) := by
  refine ⟨fun _ => le_rfl, fun _ => rfl, fun w w' h => ⟨?_, h.fs, h.cwd, ?_⟩⟩
  · show Except.ok w'.fs.paths.length = Except.ok w.fs.paths.length
    rw [h.fs]
  · show w'.calls = w'.calls + (w.calls - w.calls)
    omega

theorem remove_dir_all {l : L} {p : Path} : Local (Fs.remove_dir_all l p) := by
  unfold Fs.remove_dir_all
  refine Local.bind symlink_metadata fun r => ?_
  exact Local.bind depth fun _ => remove_all_upto _ _

end Local

/-- A computation that leaves the tree alone. -/
structure Quiet (m : Comp (World L) ε α) : Prop where
  isLocal : Local m
  fs : ∀ w, (m w).2.fs = w.fs
  cwd : ∀ w, (m w).2.cwd = w.cwd

namespace Quiet

theorem pure {a : α} : Quiet (pure a : Comp (World L) ε α) := ⟨.pure, fun _ => rfl, fun _ => rfl⟩

theorem throw {e : ε} : Quiet (throw e : Comp (World L) ε α) := ⟨.throw, fun _ => rfl, fun _ => rfl⟩

theorem bind {m : Comp (World L) ε β} {f : β → Comp (World L) ε α} (hm : Quiet m)
    (hf : ∀ b, Quiet (f b)) : Quiet (m >>= f) := by
  have hboth (w : World L) : ((m >>= f) w).2.fs = w.fs ∧ ((m >>= f) w).2.cwd = w.cwd := by
    have hfs := hm.fs w
    have hcwd := hm.cwd w
    cases hrun : m w with
    | mk r w₁ =>
      rw [hrun] at hfs hcwd
      cases r with
      | error e =>
        rw [Local.bind_eq_error hrun]
        exact ⟨hfs, hcwd⟩
      | ok b =>
        rw [Local.bind_eq hrun]
        exact ⟨((hf b).fs w₁).trans hfs, ((hf b).cwd w₁).trans hcwd⟩
  exact ⟨hm.isLocal.bind fun b => (hf b).isLocal, fun w => (hboth w).1, fun w => (hboth w).2⟩

theorem guard {c : Prop} [Decidable c] {e : ε} {f : PUnit → Comp (World L) ε α} (hf : Quiet (f ⟨⟩)) :
    Quiet (if c then (MonadExcept.throw e >>= f) else f ⟨⟩) := by
  split_ifs
  · exact ⟨⟨fun _ => le_rfl, fun _ => rfl, Local.throw.same⟩, fun _ => rfl, fun _ => rfl⟩
  · exact hf

theorem attempt (hm : Quiet m) : Quiet (Hoare.attempt m : Comp (World L) ε' (Except ε α)) :=
  ⟨hm.isLocal.attempt, hm.fs, hm.cwd⟩

theorem look {f : FileTree → RealPath → Except IoError α} : Quiet (Fs.look f : Io L α) := by
  have hboth (w : World L) : (Fs.look f w).2.fs = w.fs ∧ (Fs.look f w).2.cwd = w.cwd := by
    unfold Fs.look Posix.call
    split
    · exact ⟨rfl, rfl⟩
    · dsimp only
      cases f w.fs w.cwd <;> exact ⟨rfl, rfl⟩
  exact ⟨.look, fun w => (hboth w).1, fun w => (hboth w).2⟩

end Quiet

/-! ## Calls by their numbers -/

/-- A world with a tree whose next call is number `c`, and in which calls fail as `F` tells. -/
structure Stands (fs : FileTree) (cwd : RealPath) (F : Nat → Option IoError) (c : Nat)
    (s : World L) : Prop where
  fs : s.fs = fs
  cwd : s.cwd = cwd
  fault : s.fault = F
  calls : s.calls = c

namespace Stands

variable {fs : FileTree} {cwd q : RealPath} {F : Nat → Option IoError} {c : Nat} {s : World L}

theorem call {f : FileTree → RealPath → Except IoError (α × FileTree × List (L × RealPath))} {x : α}
    {fs' : FileTree} {acted : List (L × RealPath)} (hs : Stands fs cwd F c s) (hF : F c = none)
    (hf : f fs cwd = .ok (x, fs', acted)) :
    ∃ s', Posix.call f s = (.ok x, s') ∧ Stands fs' cwd F (c + 1) s' := by
  obtain ⟨rfl, rfl, rfl, rfl⟩ := hs
  unfold Posix.call
  rw [hF]
  dsimp only
  rw [hf]
  exact ⟨_, rfl, rfl, rfl, rfl, rfl⟩

theorem look {f : FileTree → RealPath → Except IoError α} {x : α} (hs : Stands fs cwd F c s)
    (hF : F c = none) (hf : f fs cwd = .ok x) :
    ∃ s', Fs.look f s = (.ok x, s') ∧ Stands fs cwd F (c + 1) s' := by
  refine hs.call hF (?_ : _ = Except.ok (_, _, []))
  rw [hf]
  rfl

theorem path_exists {ε : Type} (path : Path) (hs : Stands fs cwd F c s) :
    ∃ found s', (Fs.path_exists path : Comp (World L) ε Bool) s = (.ok found, s') ∧
      Stands fs cwd F (c + 1) s' ∧ (found = true ↔ F c = none ∧ ∃ r, fs.stat cwd path = .ok r) := by
  obtain ⟨rfl, rfl, rfl, rfl⟩ := hs
  have hattempt : (Hoare.attempt (Fs.metadata path) : Comp (World L) ε _) s =
      (.ok (Fs.metadata path s).1, (Fs.metadata path s).2) := rfl
  unfold Fs.path_exists
  rw [Local.bind_eq hattempt]
  unfold Fs.metadata Fs.look Posix.call
  cases hF : s.fault s.calls with
  | some e => exact ⟨false, _, rfl, ⟨rfl, rfl, rfl, rfl⟩, by simp⟩
  | none =>
    dsimp only
    cases hstat : s.fs.stat s.cwd path with
    | error e => exact ⟨false, _, rfl, ⟨rfl, rfl, rfl, rfl⟩, by simp⟩
    | ok r => exact ⟨true, _, rfl, ⟨rfl, rfl, rfl, rfl⟩, by simp⟩

theorem path_is_dir {ε : Type} {path : Path} {ino : Nat} (hs : Stands fs cwd F c s) (hF : F c = none)
    (hstat : fs.stat cwd path = .ok (q, .dir ino)) :
    ∃ s', (Fs.path_is_dir path : Comp (World L) ε Bool) s = (.ok true, s') ∧ Stands fs cwd F (c + 1) s' := by
  obtain ⟨s', hrun, hs'⟩ := hs.look (f := fun fs cwd => fs.stat cwd path) hF hstat
  have hattempt : (Hoare.attempt (Fs.metadata path) : Comp (World L) ε _) s = (.ok (.ok (q, .dir ino)), s') := by
    show (Except.ok (Fs.look _ s).1, (Fs.look _ s).2) = _
    rw [hrun]
  refine ⟨s', ?_, hs'⟩
  unfold Fs.path_is_dir
  rw [Local.bind_eq hattempt]
  rfl

end Stands

theorem mapErr_eq {g : ε → ε'} {x : α} {s s' : World L}
    (hm : m s = (.ok x, s')) : mapErr m g s = (.ok x, s') := by
  show ((m s).1.mapError g, (m s).2) = _
  rw [hm]
  rfl

theorem call_fails {f : FileTree → RealPath → Except IoError (α × FileTree × List (L × RealPath))}
    {s : World L} {e : IoError} (hfault : s.fault s.calls = some e) : Posix.call f s = (.error e, s.tick) := by
  unfold Posix.call
  dsimp only
  rw [hfault]

end Posix
