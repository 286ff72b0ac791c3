import VynkorPlugins.Base.Mutex
import VynkorPlugins.Phone.World

/-!
# Proofs: one client of the camera

At most one helper runs, as long as no photo gets the camera beside a running stream and no helper is started
beside one that nobody waits for.
-/

namespace Phone

open Mutex Transition

/-! ## What a task holds -/

namespace Task

def holdsInner : Task → Bool
  | .locked .. | .reaping .. | .spawn .. | .register .. | .stopping .. | .joining .. | .explain ..
  | .ending .. => true
  | _ => false

def holdsCamera : Task → Bool
  | .snap .. | .snapping .. | .spawn .. | .register .. => true
  | _ => false

/-- A photo has the camera. -/
def photographs : Task → Bool
  | .snap .. | .snapping .. => true
  | _ => false

/-- The task has seen that no stream is registered, or has taken it out. -/
def sawNone : Task → Bool
  | .reaping .. | .spawn .. | .register .. | .stopping .. | .joining .. | .ending .. => true
  | _ => false

/-- The helper that the task waits for or has just started. -/
def helper? : Task → Option (HelperKind × Nat)
  | .snapping _ h => some (.photo, h)
  | .reaping _ h | .register _ h | .ending _ h => some (.stream, h)
  | .stopping a => some (.stream, a.helper)
  | _ => none

theorem holdsInner_of_sawNone {task : Task} (h : task.sawNone = true) : task.holdsInner = true := by
  cases task <;> first | rfl | cases h

theorem holdsCamera_of_photographs {task : Task} (h : task.photographs = true) :
    task.holdsCamera = true := by
  cases task <;> first | rfl | cases h

end Task

namespace World

@[simp] theorem goto_self (s : World) (i : Nat) (task : Task) : (s.goto i task).tasks i = task :=
  Function.update_self ..

theorem goto_tasks (s : World) (i j : Nat) (task : Task) :
    (s.goto i task).tasks j = if j = i then task else s.tasks j :=
  Function.update_apply ..

/-- A task or the registered stream stands for the helper. -/
def Owned (s : World) (h : Nat) (kind : HelperKind) : Prop :=
  (∃ i, (s.tasks i).helper? = some (kind, h)) ∨ kind = .stream ∧ ∃ a, s.slot = some a ∧ a.helper = h

/-- The helper runs no more, or nobody waits for it. -/
def Unneeded (s : World) (h : Nat) : Prop :=
  ∀ helper, s.helpers[h]? = some helper → helper.running = true → helper.stray = true

theorem unneeded_of_childEnded {s : World} {h : Nat} (hended : s.childEnded h = true) :
    s.Unneeded h := by
  intro helper hh hr
  rw [childEnded, hh] at hended
  simpa [Helper.stray, hr] using Or.inr hended

/-- No helper of a stream runs. -/
def StreamsRest (s : World) : Prop :=
  ∀ (h : Nat) helper, s.helpers[h]? = some helper → helper.kind = .stream → helper.running = false

end World

structure Inv (s : World) : Prop where
  inner : Held s.inner Task.holdsInner s.tasks
  camera : Held s.camera Task.holdsCamera s.tasks
  empty : ∀ i, (s.tasks i).sawNone = true → s.slot = none
  owned : ∀ (h : Nat) helper, s.helpers[h]? = some helper → helper.running = true →
    helper.stray = true ∨ s.Owned h helper.kind
  rest : ∀ i, (s.tasks i).photographs = true → s.StreamsRest
  one : ∀ (h k : Nat) a b, s.helpers[h]? = some a → s.helpers[k]? = some b → a.running = true →
    b.running = true → h = k

variable {s s' : World} {i j h : Nat} {task : Task} {helper : Helper} {kind : HelperKind}

theorem inv_initial (ssh : Bool) (requests : Nat → String × Json) : Inv (.initial ssh requests) where
  inner i := by simp [World.initial, Task.holdsInner]
  camera i := by simp [World.initial, Task.holdsCamera]
  empty _ hi := by simp [World.initial, Task.sawNone] at hi
  owned h helper hh := by simp [World.initial] at hh
  rest _ hi := by simp [World.initial, Task.photographs] at hi
  one h k a b ha := by simp [World.initial] at ha

namespace Inv

/-- A step of a task that starts no helper. What the task has stood for is ended or still stood for. -/
theorem move (hI : Inv s) (htasks : s'.tasks = Function.update s.tasks i task)
    (hhelpers : s'.helpers = s.helpers) (hinner : Held s'.inner Task.holdsInner s'.tasks)
    (hcamera : Held s'.camera Task.holdsCamera s'.tasks)
    (hempty : task.sawNone = true → s'.slot = none)
    (hslot : s.slot = none → s'.slot = none ∨ (s.tasks i).holdsInner = true)
    (hold : ∀ kind h, (s.tasks i).helper? = some (kind, h) → s'.Owned h kind ∨ s.Unneeded h)
    (hstream : ∀ a, s.slot = some a → s'.Owned a.helper .stream)
    (hrest : task.photographs = true → (s.tasks i).photographs = true ∨ s.StreamsRest) : Inv s' where
  inner := hinner
  camera := hcamera
  empty j hj := by
    rw [htasks, Function.update_apply] at hj
    split_ifs at hj with hji
    · exact hempty hj
    · rcases hslot (hI.empty j hj) with hnone | hheld
      · exact hnone
      · exact absurd (hI.inner.unique (Task.holdsInner_of_sawNone hj) hheld) hji
  owned h helper hh hrunning := by
    rw [hhelpers] at hh
    rcases hI.owned h helper hh hrunning with hstray | ⟨j, hj⟩ | ⟨hkind, a, ha, rfl⟩
    · exact .inl hstray
    · by_cases hji : j = i
      · subst hji
        rcases hold _ _ hj with howned | hended
        · exact .inr howned
        · exact .inl (hended helper hh hrunning)
      · refine .inr (.inl ⟨j, ?_⟩)
        rwa [htasks, Function.update_of_ne hji]
    · rw [hkind]
      exact .inr (hstream a ha)
  rest j hj := by
    have hrests : s.StreamsRest := by
      rw [htasks, Function.update_apply] at hj
      split_ifs at hj with hji
      · rcases hrest hj with hp | hrests
        · exact hI.rest i hp
        · exact hrests
      · exact hI.rest j hj
    intro h helper hh
    rw [hhelpers] at hh
    exact hrests h helper hh
  one h k a b ha hb := by
    rw [hhelpers] at ha hb
    exact hI.one h k a b ha hb

/-- A task that stays with its locks. -/
theorem goto (hI : Inv s) (hinner : task.holdsInner = (s.tasks i).holdsInner)
    (hcamera : task.holdsCamera = (s.tasks i).holdsCamera)
    (hempty : task.sawNone = true → s.slot = none)
    (hold : ∀ kind h, (s.tasks i).helper? = some (kind, h) →
      task.helper? = some (kind, h) ∨ s.Unneeded h)
    (hrest : task.photographs = true → (s.tasks i).photographs = true) : Inv (s.goto i task) := by
  refine hI.move rfl rfl (hI.inner.keep hinner) (hI.camera.keep hcamera) hempty .inl ?_ ?_
    fun hp => .inl (hrest hp)
  · intro kind h hk
    rcases hold kind h hk with hk | hended
    · exact .inl (.inl ⟨i, by rw [World.goto_self, hk]⟩)
    · exact .inr hended
  · exact fun a ha => .inr ⟨rfl, a, ha, rfl⟩

/-- A task returns. -/
theorem answer (hI : Inv s) (result : Except PhoneError Reply)
    (hold : ∀ kind h, (s.tasks i).helper? = some (kind, h) → s.Unneeded h) :
    Inv (s.answer i result) := by
  refine hI.move rfl rfl (hI.inner.release rfl) (hI.camera.release rfl) nofun .inl ?_ ?_ nofun
  · exact fun kind h hk => .inr (hold kind h hk)
  · exact fun a ha => .inr ⟨rfl, a, ha, rfl⟩

/-- The registered stream is taken out, and its helper stood for by the task. -/
theorem takeSlot (hI : Inv s) {a : Active} (ha : s.slot = some a)
    (hinner : task.holdsInner = (s.tasks i).holdsInner)
    (hcamera : task.holdsCamera = (s.tasks i).holdsCamera)
    (hhelper : task.helper? = some (.stream, a.helper)) (hold : (s.tasks i).helper? = none)
    (hrest : task.photographs = false) : Inv (s.takeSlot.goto i task) := by
  refine hI.move rfl rfl (hI.inner.keep hinner) (hI.camera.keep hcamera) (fun _ => rfl)
    (fun _ => .inl rfl) ?_ ?_ ?_
  · intro kind h hk
    rw [hold] at hk
    cases hk
  · intro a' ha'
    rw [ha] at ha'
    obtain rfl := Option.some.inj ha'
    exact .inl ⟨i, by rw [World.goto_self, hhelper]⟩
  · intro hp
    rw [hrest] at hp
    cases hp

/-- The lock of the registered stream is given back by a task that goes on. -/
theorem unlock (hI : Inv s) (hinner : task.holdsInner = false)
    (hcamera : task.holdsCamera = (s.tasks i).holdsCamera) (hempty : task.sawNone = false)
    (hold : ∀ kind h, (s.tasks i).helper? = some (kind, h) → s.Unneeded h)
    (hrest : task.photographs = false) : Inv ((s.unlockInner i).goto i task) := by
  refine hI.move rfl rfl (hI.inner.release hinner) (hI.camera.keep hcamera) ?_ .inl ?_ ?_ ?_
  · intro hsaw
    rw [hempty] at hsaw
    cases hsaw
  · exact fun kind h hk => .inr (hold kind h hk)
  · exact fun a ha => .inr ⟨rfl, a, ha, rfl⟩
  · intro hp
    rw [hrest] at hp
    cases hp

/-- What a task does once a finished stream has been reaped. -/
theorem decideOn (hI : Inv s) (hinner : (s.tasks i).holdsInner = true)
    (hcamera : (s.tasks i).holdsCamera = false)
    (hold : ∀ kind h, (s.tasks i).helper? = some (kind, h) → s.Unneeded h) (use : Use) :
    Inv (s.decideOn i use) := by
  cases use with
  | status => exact hI.answer _ hold
  | photo p =>
    unfold World.decideOn
    cases hslot : s.slot with
    | none => exact hI.unlock rfl hcamera.symm rfl hold rfl
    | some a =>
      dsimp only
      split_ifs
      · exact hI.unlock rfl hcamera.symm rfl hold rfl
      · exact hI.answer _ hold
  | start p =>
    unfold World.decideOn
    cases hslot : s.slot with
    | some a => exact hI.answer _ hold
    | none =>
      dsimp only
      split_ifs with hfree
      · exact hI.answer _ hold
      · rw [Bool.not_eq_true, Option.isSome_eq_false_iff, Option.isNone_iff_eq_none] at hfree
        refine hI.move rfl rfl (hI.inner.keep hinner.symm) ?_ (fun _ => hslot) .inl ?_ ?_ nofun
        · exact (hfree ▸ hI.camera).take rfl
        · exact fun kind h hk => .inr (hold kind h hk)
        · exact fun a ha => .inr ⟨rfl, a, ha, rfl⟩

theorem reap (hI : Inv s) (hinner : (s.tasks i).holdsInner = true)
    (hcamera : (s.tasks i).holdsCamera = false) (hold : (s.tasks i).helper? = none) (use : Use) :
    Inv (s.reap i use) := by
  have hdecide : Inv (s.decideOn i use) := by
    refine hI.decideOn hinner hcamera (fun kind h hk => ?_) use
    rw [hold] at hk
    cases hk
  unfold World.reap
  cases hslot : s.slot with
  | none => exact hdecide
  | some a =>
    dsimp only
    split_ifs
    · exact hI.takeSlot hslot hinner.symm hcamera.symm rfl hold rfl
    · exact hdecide

theorem reapStatus (hI : Inv s) (hinner : (s.tasks i).holdsInner = true)
    (hcamera : (s.tasks i).holdsCamera = false) (hold : (s.tasks i).helper? = none)
    (status : StreamStatus) : Inv (s.reapStatus i status) := by
  have hanswer : Inv (s.answer i (.ok (.streamStatus (some status)))) := by
    refine hI.answer _ fun kind h hk => ?_
    rw [hold] at hk
    cases hk
  unfold World.reapStatus
  cases hslot : s.slot with
  | none => exact hanswer
  | some a =>
    dsimp only
    split_ifs
    · exact hI.takeSlot hslot hinner.symm hcamera.symm rfl hold rfl
    · exact hanswer

theorem look (hI : Inv s) {call : Call} (ht : s.tasks i = .locked call) : Inv (s.look i call) := by
  have hinner : (s.tasks i).holdsInner = true := by rw [ht]; rfl
  have hcamera : (s.tasks i).holdsCamera = false := by rw [ht]; rfl
  have hold : (s.tasks i).helper? = none := by rw [ht]; rfl
  have hnone : ∀ kind h, (s.tasks i).helper? = some (kind, h) → s.Unneeded h := by
    intro kind h hk
    rw [hold] at hk
    cases hk
  cases call with
  | use use => exact hI.reap hinner hcamera hold use
  | stop id =>
    change Inv (s.stop i id)
    unfold World.stop
    cases hslot : s.slot with
    | none => exact hI.answer _ hnone
    | some a =>
      have htake : Inv (s.takeSlot.goto i (.stopping a)) :=
        hI.takeSlot hslot hinner.symm hcamera.symm rfl hold rfl
      cases id with
      | none => exact htake
      | some want =>
        dsimp only
        split_ifs
        · exact htake
        · exact hI.answer _ hnone
  | streamStatus =>
    change Inv (s.streamStatus i)
    unfold World.streamStatus
    cases hslot : s.slot with
    | none => exact hI.answer _ hnone
    | some a =>
      dsimp only
      split_ifs
      · refine hI.goto hinner.symm hcamera.symm nofun (fun kind h hk => ?_) nofun
        exact .inr (hnone kind h hk)
      · exact hI.reapStatus hinner hcamera hold _
      · exact hI.answer _ hnone

/-! ## Helpers -/

/-- A helper that changes does not start to run again, and stays with whom it was. -/
theorem setHelper (hI : Inv s) (hh : s.helpers[h]? = some helper) {helper' : Helper}
    (hkind : helper'.kind = helper.kind) (hrunning : helper'.running = true → helper.running = true)
    (hstray : helper'.running = true → helper.stray = true → helper'.stray = true) :
    Inv (s.setHelper h helper') := by
  have hlt : h < s.helpers.length := (List.getElem?_eq_some_iff.mp hh).1
  have hget (k : Nat) : (s.setHelper h helper').helpers[k]?
      = if h = k then some helper' else s.helpers[k]? := by
    change (s.helpers.set h helper')[k]? = _
    rw [List.getElem?_set]
    split_ifs with hk
    · rfl
    · rfl
  -- what runs now ran before under the same number
  have hbefore {k : Nat} {b : Helper} (hb : (s.setHelper h helper').helpers[k]? = some b) :
      ∃ b', s.helpers[k]? = some b' ∧ b'.kind = b.kind ∧ (b.running = true → b'.running = true) ∧
        (b.running = true → b'.stray = true → b.stray = true) := by
    rw [hget] at hb
    split_ifs at hb with hk
    · subst hk
      obtain rfl := Option.some.inj hb
      exact ⟨helper, hh, hkind.symm, hrunning, hstray⟩
    · exact ⟨b, hb, rfl, id, fun _ => id⟩
  exact {
    inner := hI.inner
    camera := hI.camera
    empty := hI.empty
    owned := fun k b hb hr => by
      obtain ⟨b', hb', hkind', hr', hs'⟩ := hbefore hb
      rcases hI.owned k b' hb' (hr' hr) with hstray | howned
      · exact .inl (hs' hr hstray)
      · exact .inr (hkind' ▸ howned)
    rest := fun i hi k b hb hk => by
      obtain ⟨b', hb', hkind', hr', -⟩ := hbefore hb
      have hrest := hI.rest i hi k b' hb' (hkind'.trans hk)
      rw [Bool.eq_false_iff] at hrest ⊢
      exact fun hr => hrest (hr' hr)
    one := fun k l a b ha hb hra hrb => by
      obtain ⟨a', ha', -, hra', -⟩ := hbefore ha
      obtain ⟨b', hb', -, hrb', -⟩ := hbefore hb
      exact hI.one k l a' b' ha' hb' (hra' hra) (hrb' hrb) }

/-- A helper is started where none runs. -/
theorem addHelper (hI : Inv s) (hidle : ∀ (h : Nat) helper, s.helpers[h]? = some helper →
      helper.running = false)
    (hinner : task.holdsInner = (s.tasks i).holdsInner)
    (hcamera : task.holdsCamera = (s.tasks i).holdsCamera)
    (hheld : (s.tasks i).holdsCamera = true) (hold : (s.tasks i).helper? = none)
    (hsaw : task.sawNone = (s.tasks i).sawNone)
    (hhelper : task.helper? = some (kind, s.helpers.length))
    (hphoto : task.photographs = true → kind = .photo) :
    Inv ((s.addHelper kind).goto i task) := by
  have hget (k : Nat) : ((s.addHelper kind).goto i task).helpers[k]?
      = if k = s.helpers.length then some { kind := kind } else s.helpers[k]? := by
    change (s.helpers ++ [({ kind := kind } : Helper)])[k]? = _
    rw [List.getElem?_append]
    split_ifs with hlt hk hk
    · exact absurd hk (Nat.ne_of_lt hlt)
    · rfl
    · rw [hk, Nat.sub_self]
      rfl
    · rw [List.getElem?_eq_none, List.getElem?_eq_none]
      · omega
      · rw [List.length_singleton]
        omega
  have hnew {k : Nat} {b : Helper} (hb : ((s.addHelper kind).goto i task).helpers[k]? = some b)
      (hr : b.running = true) : k = s.helpers.length ∧ b = { kind := kind } := by
    rw [hget] at hb
    split_ifs at hb with hk
    · exact ⟨hk, (Option.some.inj hb).symm⟩
    · rw [hidle k b hb] at hr
      cases hr
  exact {
    inner := hI.inner.keep hinner
    camera := hI.camera.keep hcamera
    empty := fun j hj => by
      rw [World.goto_tasks] at hj
      split_ifs at hj
      · rw [hsaw] at hj
        exact hI.empty i hj
      · exact hI.empty j hj
    owned := fun k b hb hr => by
      obtain ⟨rfl, rfl⟩ := hnew hb hr
      exact .inr (.inl ⟨i, by rw [World.goto_self, hhelper]⟩)
    rest := fun j hj k b hb hk => by
      rw [Bool.eq_false_iff]
      intro hr
      obtain ⟨rfl, rfl⟩ := hnew hb hr
      -- a photo in progress holds the camera, so that it is the one that starts the helper
      have hcam : (((s.addHelper kind).goto i task).tasks j).holdsCamera = true :=
        Task.holdsCamera_of_photographs hj
      have hji : j = i := by
        refine (hI.camera.keep hcamera).unique hcam ?_
        rw [Function.update_self, hcamera, hheld]
      subst hji
      rw [World.goto_self] at hj
      have hkind := hphoto hj
      rw [hkind] at hk
      cases hk
    one := fun k l a b ha hb hra hrb => (hnew ha hra).1.trans (hnew hb hrb).1.symm }

/-- Where no stray helper runs, nothing runs when a photo starts its helper. -/
theorem idle_snap (hI : Inv s) {p : PhotoParams} (ht : s.tasks i = .snap p)
    (horderly : s.helpers.all fun helper => !helper.stray) (h : Nat) (helper : Helper)
    (hh : s.helpers[h]? = some helper) : helper.running = false := by
  have hstray := List.all_eq_true.mp horderly helper (List.mem_of_getElem? hh)
  rw [Bool.eq_false_iff]
  intro hr
  have hrest := hI.rest i (by rw [ht]; rfl) h helper hh
  cases hkind : helper.kind with
  | stream =>
    rw [hrest hkind] at hr
    cases hr
  | photo =>
    rcases hI.owned h helper hh hr with hs | ⟨j, hj⟩ | ⟨hk, -⟩
    · rw [hs] at hstray
      cases hstray
    · rw [hkind] at hj
      cases htask : s.tasks j with
      | snapping p' h' =>
        have hji : j = i := hI.camera.unique (by rw [htask]; rfl) (by rw [ht]; rfl)
        rw [hji, ht] at htask
        cases htask
      | _ => simp [htask, Task.helper?] at hj
    · rw [hkind] at hk
      cases hk

/-- Where no stray helper runs, nothing runs when a stream starts its helper. -/
theorem idle_spawn (hI : Inv s) {p : StreamParams} (ht : s.tasks i = .spawn p)
    (horderly : s.helpers.all fun helper => !helper.stray) (h : Nat) (helper : Helper)
    (hh : s.helpers[h]? = some helper) : helper.running = false := by
  have hstray := List.all_eq_true.mp horderly helper (List.mem_of_getElem? hh)
  rw [Bool.eq_false_iff]
  intro hr
  have hslot : s.slot = none := hI.empty i (by rw [ht]; rfl)
  rcases hI.owned h helper hh hr with hs | ⟨j, hj⟩ | ⟨-, a, ha, -⟩
  · rw [hs] at hstray
    cases hstray
  · have hlocks : (s.tasks j).holdsInner = true ∨ (s.tasks j).holdsCamera = true := by
      cases htask : s.tasks j with
      | snapping | reaping | register | ending | stopping => simp [Task.holdsInner, Task.holdsCamera]
      | _ => simp [htask, Task.helper?] at hj
    have hji : j = i := by
      rcases hlocks with hl | hl
      · exact hI.inner.unique hl (by rw [ht]; rfl)
      · exact hI.camera.unique hl (by rw [ht]; rfl)
    rw [hji, ht] at hj
    cases hj
  · rw [hslot] at ha
    cases ha

/-! ## Steps -/

theorem register (hI : Inv s) {p : StreamParams} (ht : s.tasks i = .register p h) (ms : Nat) :
    Inv (s.register i p h ms) := by
  have hslot : s.slot = none := hI.empty i (by rw [ht]; rfl)
  have hheld : (s.tasks i).holdsInner = true := by rw [ht]; rfl
  refine hI.move rfl rfl (hI.inner.release rfl) (hI.camera.release rfl) nofun
    (fun _ => .inr hheld) ?_ ?_ nofun
  · intro kind k hk
    rw [ht] at hk
    obtain ⟨rfl, rfl⟩ := Prod.mk.inj (Option.some.inj hk)
    exact .inl (.inr ⟨rfl, _, rfl, rfl⟩)
  · intro a ha
    rw [hslot] at ha
    cases ha

theorem begin (hI : Inv s) {action : String} {params : Json} (ht : s.tasks i = .received action params)
    (dir : Option PhoneError) : Inv (s.begin i action params dir) := by
  have hold : ∀ kind h, (s.tasks i).helper? = some (kind, h) → s.Unneeded h := by
    rw [ht]
    exact nofun
  have hgo (call : Call) : Inv (s.goto i (.inner call)) := by
    refine hI.goto (by rw [ht]; rfl) (by rw [ht]; rfl) nofun (fun kind h hk => ?_) nofun
    exact .inr (hold kind h hk)
  unfold World.begin
  split
  · exact hI.answer _ hold
  · split
    · exact hI.answer _ hold
    · exact hgo _
  · exact hgo _

/-- A helper that has ended, or its child, or that nobody waits for any more. -/
theorem change (hI : Inv s) (hh : s.helpers[h]? = some helper) {helper' : Helper}
    (hkind : helper'.kind = helper.kind)
    (hrunning : helper'.running = true → helper.running = true)
    (hchild : helper'.child = true → helper.child = true)
    (hdropped : helper.dropped = true → helper'.dropped = true) : Inv (s.setHelper h helper') := by
  refine hI.setHelper hh hkind hrunning fun hr hs => ?_
  simp only [Helper.stray, Bool.and_eq_true, Bool.or_eq_true, Bool.not_eq_true'] at hs ⊢
  refine ⟨hr, hs.2.imp hdropped fun hc => ?_⟩
  rw [Bool.eq_false_iff] at hc ⊢
  exact fun hc' => hc (hchild hc')

theorem giveUp (hI : Inv s) {p : PhotoParams} (ht : s.tasks i = .snapping p h)
    (hh : s.helpers[h]? = some helper) (e : PhoneError) :
    Inv ((s.setHelper h { helper with dropped := true }).answer i (.error e)) := by
  have hset : Inv (s.setHelper h { helper with dropped := true }) :=
    hI.change hh rfl id id fun _ => rfl
  refine hset.answer _ fun kind k hk => ?_
  have hk : (s.tasks i).helper? = some (kind, k) := hk
  rw [ht] at hk
  obtain ⟨rfl, rfl⟩ := Prod.mk.inj (Option.some.inj hk)
  intro b hb hr
  have hb : (s.helpers.set h { helper with dropped := true })[h]? = some b := hb
  rw [List.getElem?_set_self (List.getElem?_eq_some_iff.mp hh).1] at hb
  obtain rfl := Option.some.inj hb
  simpa [Helper.stray] using hr

theorem step {l : Label} (hI : Inv s) (hs : s.step l = some s') (horderly : s.orderly l = true) :
    Inv s' := by
  cases l with
  | begin i dir =>
    simp only [World.step] at hs
    split at hs
    · rename_i action params ht
      obtain rfl := Option.some.inj hs
      exact hI.begin ht dir
    · cases hs
  | lockInner i =>
    simp only [World.step] at hs
    split at hs
    · rename_i call ht hfree
      obtain rfl := Option.some.inj hs
      have hinner : Held none Task.holdsInner s.tasks := hfree ▸ hI.inner
      refine hI.move rfl rfl (hinner.take rfl) (hI.camera.keep (by rw [ht]; rfl)) nofun .inl ?_ ?_ nofun
      · rw [ht]
        exact nofun
      · exact fun a ha => .inr ⟨rfl, a, ha, rfl⟩
    · cases hs
  | look i =>
    simp only [World.step] at hs
    split at hs
    · rename_i call ht
      obtain rfl := Option.some.inj hs
      exact hI.look ht
    · cases hs
  | reaped i =>
    simp only [World.step] at hs
    split at hs
    · rename_i use h ht
      split_ifs at hs with hended
      obtain rfl := Option.some.inj hs
      refine hI.decideOn (by rw [ht]; rfl) (by rw [ht]; rfl) (fun kind k hk => ?_) use
      rw [ht] at hk
      obtain ⟨rfl, rfl⟩ := Prod.mk.inj (Option.some.inj hk)
      exact World.unneeded_of_childEnded hended
    · cases hs
  | copied i bytes =>
    simp only [World.step] at hs
    split at hs
    · rename_i p ht
      obtain rfl := Option.some.inj hs
      exact hI.answer _ (by rw [ht]; exact nofun)
    · cases hs
  | lockCamera i =>
    simp only [World.step] at hs
    split at hs
    · rename_i p ht hfree
      obtain rfl := Option.some.inj hs
      have hcamera : Held none Task.holdsCamera s.tasks := hfree ▸ hI.camera
      refine hI.move rfl rfl (hI.inner.keep (by rw [ht]; rfl)) (hcamera.take rfl) nofun .inl ?_ ?_
        fun _ => .inr fun h helper hh hkind => ?_
      · rw [ht]
        exact nofun
      · exact fun a ha => .inr ⟨rfl, a, ha, rfl⟩
      · have hrest := List.all_eq_true.mp horderly helper (List.mem_of_getElem? hh)
        simpa [hkind] using hrest
    · cases hs
  | snap i failure =>
    simp only [World.step] at hs
    split at hs
    · rename_i p ht
      cases failure with
      | some e =>
        obtain rfl := Option.some.inj hs
        exact hI.answer _ (by rw [ht]; exact nofun)
      | none =>
        obtain rfl := Option.some.inj hs
        exact hI.addHelper (hI.idle_snap ht horderly) (by rw [ht]; rfl) (by rw [ht]; rfl)
          (by rw [ht]; rfl) (by rw [ht]; rfl) (by rw [ht]; rfl) rfl fun _ => rfl
    · cases hs
  | snapped i out write =>
    simp only [World.step] at hs
    split at hs
    · rename_i p h ht
      split_ifs at hs with hended
      obtain rfl := Option.some.inj hs
      refine hI.answer _ fun kind k hk => ?_
      rw [ht] at hk
      obtain ⟨rfl, rfl⟩ := Prod.mk.inj (Option.some.inj hk)
      exact World.unneeded_of_childEnded hended
    · cases hs
  | giveUp i e =>
    simp only [World.step] at hs
    split at hs
    · rename_i p h ht
      obtain ⟨helper, hh, rfl⟩ := Option.map_eq_some_iff.mp hs
      exact hI.giveUp ht hh e
    · cases hs
  | spawn i failure =>
    simp only [World.step] at hs
    split at hs
    · rename_i p ht
      cases failure with
      | some e =>
        obtain rfl := Option.some.inj hs
        exact hI.answer _ (by rw [ht]; exact nofun)
      | none =>
        obtain rfl := Option.some.inj hs
        exact hI.addHelper (hI.idle_spawn ht horderly) (by rw [ht]; rfl) (by rw [ht]; rfl)
          (by rw [ht]; rfl) (by rw [ht]; rfl) (by rw [ht]; rfl) rfl nofun
    · cases hs
  | register i ms =>
    simp only [World.step] at hs
    split at hs
    · rename_i p h ht
      obtain rfl := Option.some.inj hs
      exact hI.register ht ms
    · cases hs
  | killed i =>
    simp only [World.step] at hs
    split at hs
    · rename_i a ht
      split_ifs at hs with hended
      obtain rfl := Option.some.inj hs
      refine hI.goto (by rw [ht]; rfl) (by rw [ht]; rfl) (fun _ => hI.empty i (by rw [ht]; rfl)) ?_ nofun
      intro kind k hk
      rw [ht] at hk
      obtain ⟨rfl, rfl⟩ := Prod.mk.inj (Option.some.inj hk)
      exact .inr (World.unneeded_of_childEnded hended)
    · cases hs
  | joined i =>
    simp only [World.step] at hs
    split at hs
    · rename_i a stderr ht
      obtain rfl := Option.some.inj hs
      exact hI.answer _ (by rw [ht]; exact nofun)
    · cases hs
  | explained i code =>
    simp only [World.step] at hs
    split at hs
    · rename_i a ht
      split_ifs at hs
      obtain rfl := Option.some.inj hs
      exact hI.reapStatus (by rw [ht]; rfl) (by rw [ht]; rfl) (by rw [ht]; rfl) _
    · cases hs
  | ended i =>
    simp only [World.step] at hs
    split at hs
    · rename_i status h ht
      split_ifs at hs with hended
      obtain rfl := Option.some.inj hs
      refine hI.answer _ fun kind k hk => ?_
      rw [ht] at hk
      obtain ⟨rfl, rfl⟩ := Prod.mk.inj (Option.some.inj hk)
      exact World.unneeded_of_childEnded hended
    · cases hs
  | frame h =>
    obtain ⟨helper, hh, hs⟩ := Option.bind_eq_some_iff.mp hs
    split_ifs at hs
    obtain rfl := Option.some.inj hs
    exact hI.change hh rfl id id id
  | stderr h text =>
    obtain ⟨helper, hh, rfl⟩ := Option.map_eq_some_iff.mp hs
    exact hI.change hh rfl id id id
  | pumpEnded h =>
    obtain ⟨helper, hh, rfl⟩ := Option.map_eq_some_iff.mp hs
    exact hI.change hh rfl id id id
  | childExit h outlived =>
    obtain ⟨helper, hh, rfl⟩ := Option.map_eq_some_iff.mp hs
    refine hI.change hh rfl (fun hr => ?_) nofun id
    simp only [Bool.and_eq_true] at hr
    exact hr.1.1
  | helperExit h =>
    obtain ⟨helper, hh, rfl⟩ := Option.map_eq_some_iff.mp hs
    exact hI.change hh rfl nofun id id

end Inv

/-! ## The next request -/

/-- The runs in which no photo gets the camera beside a stream, and no helper is started beside a stray one. -/
abbrev Orderly (ssh : Bool) (requests : Nat → String × Json) : List Label → World → Prop :=
  Run (Where (fun s l => s.orderly l = true) fun s l s' => s.step l = some s') (.initial ssh requests)

/-- The request has not been begun, or has been answered. -/
def Task.idle : Task → Bool
  | .received .. | .answered _ => true
  | _ => false

/-- No request is in progress, a stream that is still registered is over, and no helper was left behind. -/
structure Ended (s : World) : Prop where
  idle : ∀ i, (s.tasks i).idle = true
  finished : ∀ a, s.slot = some a → s.finished a = true
  none_stray : ∀ helper ∈ s.helpers, helper.stray = false

variable {ssh : Bool} {requests : Nat → String × Json} {trace : List Label} {use : Use}

theorem Run.inv (hr : Orderly ssh requests trace s) : Inv s :=
  hr.invariant_state (inv_initial ssh requests) fun _ _ _ hI hs => hI.step hs.1 hs.2

theorem Inv.free (hI : Inv s) (hidle : ∀ i, (s.tasks i).idle = true) :
    s.inner = none ∧ s.camera = none := by
  refine ⟨hI.inner.free fun i => ?_, hI.camera.free fun i => ?_⟩
  all_goals
    have hi := hidle i
    cases htask : s.tasks i <;> first | rfl | (rw [htask] at hi; cases hi)

/-- Only the registered stream has a helper left. -/
theorem Inv.rest_of_ended (hI : Inv s) (hended : Ended s) (hh : s.helpers[h]? = some helper)
    (hr : helper.running = true) : ∃ a, s.slot = some a ∧ a.helper = h := by
  rcases hI.owned h helper hh hr with hstray | ⟨i, hi⟩ | ⟨-, hslot⟩
  · rw [hended.none_stray helper (List.mem_of_getElem? hh)] at hstray
    cases hstray
  · have hidle := hended.idle i
    cases htask : s.tasks i <;> rw [htask] at hi hidle <;> first | cases hi | cases hidle
  · exact hslot

/-- A request takes the lock of the registered stream. -/
theorem reaches_lock (hr : Orderly ssh requests trace s) (hinner : s.inner = none)
    {action : String} {params : Json} (ht : s.tasks i = .received action params)
    (hcall : dispatch action params = .ok (.use use)) :
    Orderly ssh requests (.lockInner i :: .begin i none :: trace)
      (((s.goto i (.inner (.use use))).takeInner i).goto i (.locked (.use use))) := by
  have hbegin : s.step (.begin i none) = some (s.goto i (.inner (.use use))) := by
    have hgo : s.begin i action params none = s.goto i (.inner (.use use)) := by
      rw [World.begin, hcall]
      cases use <;> rfl
    simp only [World.step, ht, hgo]
  have hlock : (s.goto i (.inner (.use use))).step (.lockInner i)
      = some (((s.goto i (.inner (.use use))).takeInner i).goto i (.locked (.use use))) := by
    have hfree : (s.goto i (.inner (.use use))).inner = none := hinner
    simp only [World.step, World.goto_self, hfree]
  exact (hr.step ⟨hbegin, rfl⟩).step ⟨hlock, rfl⟩

/-- The next request gets as far as to decide on the camera, with no stream registered and no helper
    running. -/
theorem reaches_decision (hr : Orderly ssh requests trace s) (hended : Ended s)
    {action : String} {params : Json} (ht : s.tasks i = .received action params)
    (hcall : dispatch action params = .ok (.use use)) :
    ∃ ls s', Orderly ssh requests (ls ++ trace) (World.decideOn s' i use) ∧ s'.slot = none ∧
      s'.camera = none ∧ ∀ helper ∈ s'.helpers, helper.running = false := by
  have hI : Inv s := Run.inv hr
  obtain ⟨hinner, hcamera⟩ := hI.free hended.idle
  have hlock := reaches_lock hr hinner ht hcall
  generalize hs' : ((s.goto i (.inner (.use use))).takeInner i).goto i (.locked (.use use)) = s' at hlock
  have hslot' : s'.slot = s.slot := by rw [← hs']; rfl
  have hcamera' : s'.camera = none := by rw [← hs']; exact hcamera
  have hhelpers' : s'.helpers = s.helpers := by rw [← hs']; rfl
  have ht' : s'.tasks i = .locked (.use use) := by rw [← hs', World.goto_self]
  cases hslot : s.slot with
  | none =>
    have hlook : s'.step (.look i) = some (s'.decideOn i use) := by
      simp only [World.step, ht', World.look, World.reap, hslot', hslot]
    refine ⟨[.look i, .lockInner i, .begin i none], s', hlock.step ⟨hlook, rfl⟩, ?_, hcamera', ?_⟩
    · rw [hslot', hslot]
    · intro helper hmem
      rw [hhelpers'] at hmem
      obtain ⟨h, hh⟩ := List.mem_iff_getElem?.mp hmem
      rw [Bool.eq_false_iff]
      intro hrunning
      obtain ⟨a, ha, -⟩ := hI.rest_of_ended hended hh hrunning
      rw [hslot] at ha
      cases ha
  | some a =>
    have hfinished : s'.finished a = true := by
      rw [World.finished, hhelpers']
      exact hended.finished a hslot
    obtain ⟨helper, hh, -⟩ := (Option.any_eq_true _ _).mp hfinished
    have hlook : s'.step (.look i) = some (s'.takeSlot.goto i (.reaping use a.helper)) := by
      simp only [World.step, ht', World.look, World.reap, hslot', hslot, hfinished, if_true]
    have hh' : (s'.takeSlot.goto i (.reaping use a.helper)).helpers[a.helper]? = some helper := hh
    let gone : Helper := { helper with child := false, running := helper.running && false && s'.ssh }
    have hexit : (s'.takeSlot.goto i (.reaping use a.helper)).step (.childExit a.helper false)
        = some ((s'.takeSlot.goto i (.reaping use a.helper)).setHelper a.helper gone) := by
      simp only [World.step, hh', Option.map_some]
      rfl
    have hget (k : Nat) : ((s'.takeSlot.goto i (.reaping use a.helper)).setHelper a.helper gone).helpers[k]?
        = if a.helper = k then some gone else s.helpers[k]? := by
      change (s'.helpers.set a.helper gone)[k]? = _
      have hlt : a.helper < s.helpers.length := by
        rw [← hhelpers']
        exact (List.getElem?_eq_some_iff.mp hh).1
      rw [hhelpers', List.getElem?_set, if_pos hlt]
    have hreaped : ((s'.takeSlot.goto i (.reaping use a.helper)).setHelper a.helper gone).step (.reaped i)
        = some (((s'.takeSlot.goto i (.reaping use a.helper)).setHelper a.helper gone).decideOn i use) := by
      have ht'' : ((s'.takeSlot.goto i (.reaping use a.helper)).setHelper a.helper gone).tasks i
          = .reaping use a.helper := World.goto_self ..
      have hended'' : ((s'.takeSlot.goto i (.reaping use a.helper)).setHelper a.helper gone).childEnded
          a.helper = true := by
        rw [World.childEnded, hget, if_pos rfl]
        rfl
      simp only [World.step, ht'', hended'', if_true]
    refine ⟨[.reaped i, .childExit a.helper false, .look i, .lockInner i, .begin i none], _,
      ((hlock.step ⟨hlook, rfl⟩).step ⟨hexit, rfl⟩).step ⟨hreaped, rfl⟩, rfl, hcamera', ?_⟩
    intro b hmem
    obtain ⟨k, hk⟩ := List.mem_iff_getElem?.mp hmem
    rw [hget] at hk
    split_ifs at hk with hka
    · obtain rfl := Option.some.inj hk
      change (helper.running && false && s'.ssh) = false
      rw [Bool.and_false, Bool.false_and]
    · rw [Bool.eq_false_iff]
      intro hrunning
      obtain ⟨a', ha', hka'⟩ := hI.rest_of_ended hended hk hrunning
      rw [hslot] at ha'
      obtain rfl := Option.some.inj ha'
      exact hka hka'

theorem not_stray_of_rest (h : ∀ helper ∈ s.helpers, helper.running = false) :
    (s.helpers.all fun helper => !helper.stray) = true := by
  refine List.all_eq_true.mpr fun helper hmem => ?_
  rw [Helper.stray, h helper hmem]
  rfl

/-- A photo that is the next request gets the camera. -/
theorem next_photo (hr : Orderly ssh requests trace s) (hended : Ended s)
    {action : String} {params : Json} {p : PhotoParams} (ht : s.tasks i = .received action params)
    (hcall : dispatch action params = .ok (.use (.photo p))) :
    ∃ ls s' h, Orderly ssh requests (ls ++ trace) s' ∧ s'.tasks i = .snapping p h ∧
      (s'.helpers[h]?).any Helper.running = true := by
  obtain ⟨ls, s₁, hrun, hslot, hcamera, hrest⟩ := reaches_decision hr hended ht hcall
  have hdecide : s₁.decideOn i (.photo p) = (s₁.unlockInner i).goto i (.camera p) := by
    simp only [World.decideOn, hslot]
  rw [hdecide] at hrun
  let s₂ := (((s₁.unlockInner i).goto i (.camera p)).takeCamera i).goto i (.snap p)
  have hlock : ((s₁.unlockInner i).goto i (.camera p)).step (.lockCamera i) = some s₂ := by
    have hfree : ((s₁.unlockInner i).goto i (.camera p)).camera = none := hcamera
    simp only [World.step, World.goto_self, hfree]
    rfl
  have hstreams : ((s₁.unlockInner i).goto i (.camera p)).orderly (.lockCamera i) = true := by
    refine List.all_eq_true.mpr fun helper hmem => ?_
    rw [hrest helper hmem, Bool.not_false, Bool.or_true]
  have hsnap : s₂.step (.snap i none)
      = some ((s₂.addHelper .photo).goto i (.snapping p s₂.helpers.length)) := by
    have ht₂ : s₂.tasks i = .snap p := World.goto_self ..
    simp only [World.step, ht₂]
  refine ⟨.snap i none :: .lockCamera i :: ls, _, s₂.helpers.length,
    (hrun.step ⟨hlock, hstreams⟩).step ⟨hsnap, not_stray_of_rest hrest⟩, World.goto_self .., ?_⟩
  change ((s₂.helpers ++ [({ kind := .photo } : Helper)])[s₂.helpers.length]?).any _ = true
  rw [List.getElem?_concat_length]
  rfl

/-- A stream that is the next request gets the camera. -/
theorem next_stream (hr : Orderly ssh requests trace s) (hended : Ended s)
    {action : String} {params : Json} {p : StreamParams} (ht : s.tasks i = .received action params)
    (hcall : dispatch action params = .ok (.use (.start p))) :
    ∃ ls s' a, Orderly ssh requests (ls ++ trace) s' ∧ s'.tasks i = .answered (.ok (.started a)) ∧
      s'.slot = some a ∧ (s'.helpers[a.helper]?).any Helper.running = true := by
  obtain ⟨ls, s₁, hrun, hslot, hcamera, hrest⟩ := reaches_decision hr hended ht hcall
  have hdecide : s₁.decideOn i (.start p) = (s₁.takeCamera i).goto i (.spawn p) := by
    simp only [World.decideOn, hslot, hcamera, Option.isSome_none, Bool.false_eq_true, if_false]
  rw [hdecide] at hrun
  let s₂ := (s₁.takeCamera i).goto i (.spawn p)
  let s₃ := (s₂.addHelper .stream).goto i (.register p s₂.helpers.length)
  have hspawn : s₂.step (.spawn i none) = some s₃ := by
    have ht₂ : s₂.tasks i = .spawn p := World.goto_self ..
    simp only [World.step, ht₂]
    rfl
  have hregister : s₃.step (.register i 0) = some (s₃.register i p s₂.helpers.length 0) := by
    have ht₃ : s₃.tasks i = .register p s₂.helpers.length := World.goto_self ..
    simp only [World.step, ht₃]
  refine ⟨.register i 0 :: .spawn i none :: ls, _, _,
    (hrun.step ⟨hspawn, not_stray_of_rest hrest⟩).step ⟨hregister, rfl⟩, ?_, rfl, ?_⟩
  · exact Function.update_self ..
  · change ((s₂.helpers ++ [({ kind := .stream } : Helper)])[s₂.helpers.length]?).any _ = true
    rw [List.getElem?_concat_length]
    rfl

/-! ## Runs -/

/-- As long as no photo gets the camera beside the running helper of a stream, and no helper is started
    while one runs that nobody waits for, at most one helper runs, and the next request after all others
    have ended starts its helper. -/
theorem one_camera_client (ssh : Bool) (requests : Nat → String × Json)
    (hr : Orderly ssh requests trace s) :
    (∀ (h k : Nat) a b, s.helpers[h]? = some a → s.helpers[k]? = some b → a.running = true →
      b.running = true → h = k) ∧
    ((∀ i, (s.tasks i).idle = true) → s.inner = none ∧ s.camera = none) ∧
    (Ended s → ∀ i action params, s.tasks i = .received action params →
      (∀ p, dispatch action params = .ok (.use (.photo p)) → ∃ ls s' h,
        Orderly ssh requests (ls ++ trace) s' ∧ s'.tasks i = .snapping p h ∧
          (s'.helpers[h]?).any Helper.running = true) ∧
      (∀ p, dispatch action params = .ok (.use (.start p)) → ∃ ls s' a,
        Orderly ssh requests (ls ++ trace) s' ∧ s'.tasks i = .answered (.ok (.started a)) ∧
          s'.slot = some a ∧ (s'.helpers[a.helper]?).any Helper.running = true)) := by
  have hI : Inv s := Run.inv hr
  refine ⟨hI.one, hI.free, fun hended i action params ht => ⟨fun p hcall => ?_, fun p hcall => ?_⟩⟩
  · exact next_photo hr hended ht hcall
  · exact next_stream hr hended ht hcall

/-- A stream, a photo, a stop, and then photos. -/
def actions (i : Nat) : String × Json :=
  (["phone_stream_start", "phone_photo", "phone_stream_stop"].getD i "phone_photo", .null)

/-- A stream that is stopped while a photo copies its frame, and then a photo. -/
theorem one_camera_client_sample :
    ∃ s : World, (∀ (h k : Nat) a b, s.helpers[h]? = some a → s.helpers[k]? = some b →
      a.running = true → b.running = true → h = k) ∧ s.helpers.length = 2 := by
  have hsome : ((runWhere (fun s l => World.orderly s l = true) World.step (.initial false actions)
      [.begin 0 none, .lockInner 0, .look 0, .spawn 0 none, .register 0 1, .begin 1 none, .lockInner 1,
        .look 1, .begin 2 none, .lockInner 2, .copied 1 (.ok 7), .look 2, .childExit 0 false, .killed 2,
        .joined 2, .begin 3 none, .lockInner 3, .look 3, .lockCamera 3, .snap 3 none]).any fun s =>
          s.helpers.length = 2) = true := by
    decide
  obtain ⟨s, hs, hlength⟩ := (Option.any_eq_true _ _).mp hsome
  have hcamera := one_camera_client false actions (run_of_runWhere .start hs)
  exact ⟨s, hcamera.1, of_decide_eq_true hlength⟩

/-- A photo sees no stream, and gets the camera after a stream has been started. -/
theorem photo_beside_a_stream :
    ¬ ∀ (ssh : Bool) (requests : Nat → String × Json) (trace : List Label) (s : World),
      Run (fun s l s' => s.step l = some s') (.initial ssh requests) trace s →
        ∀ (h k : Nat) a b, s.helpers[h]? = some a → s.helpers[k]? = some b → a.running = true →
          b.running = true → h = k := by
  intro hall
  have hsome : ((runWhere (fun _ _ => True) World.step (.initial false actions)
      [.begin 1 none, .lockInner 1, .look 1, .begin 0 none, .lockInner 0, .look 0, .spawn 0 none,
        .register 0 1, .lockCamera 1, .snap 1 none]).any fun s =>
          (s.helpers[0]?).any Helper.running ∧ (s.helpers[1]?).any Helper.running) = true := by
    decide
  obtain ⟨s, hs, hboth⟩ := (Option.any_eq_true _ _).mp hsome
  obtain ⟨hfirst, hsecond⟩ := of_decide_eq_true hboth
  obtain ⟨a, ha, hra⟩ := (Option.any_eq_true _ _).mp hfirst
  obtain ⟨b, hb, hrb⟩ := (Option.any_eq_true _ _).mp hsecond
  have hrun := (run_of_runWhere .start hs).mono fun _ _ _ hl => hl.1
  cases hall false actions _ s hrun 0 1 a b ha hb hra hrb

end Phone
