import Mathlib.Algebra.BigOperators.Group.Finset.Piecewise
import Mathlib.Algebra.BigOperators.Ring.Finset
import VynkorPlugins.Base.Balance
import VynkorPlugins.VectorDb.Proofs.CoherenceProofs

/-!
# The budget of the cache

The global counter is balanced between the slots and the operations: what a slot is counted for is in
the hands of the operation that has its guard, and what is reserved or on its way is in the hands of
the operation itself.
-/

namespace VectorDb.VecCache

open Async Balance Transition

variable {F : Type} {serde : Serde} {c : CacheConfig} {g : Nat → Hold F} {w w' : World F} {i : Nat}
  {s : Hold F} {key : Key}

/-- What the global counter has for a slot. -/
def slotCount (g : Nat → Hold F) (w : World F) (k : Key) : ℕ :=
  match (w.slots k).guard with
  | none => (w.slots k).bytes
  | some i => (((g i).guards k).map Guarded.counted).getD 0

def amount (g : Nat → Hold F) (w : World F) : Key ⊕ Nat → ℕ :=
  Sum.elim (slotCount g w) fun i => (g i).counted

structure Counted (c : CacheConfig) (g : Nat → Hold F) (w : World F) : Prop where
  balanced : Balanced w.total (w.known.disjSum w.begun) (amount g w)
  bounded : w.total ≤ c.max_bytes

theorem slotCount_guard (hl : Locks g w) {gd : Guarded} (hgd : (g i).guards key = some gd) :
    slotCount g w key = gd.counted := by
  unfold slotCount
  rw [(hl.guard i key gd hgd).1]
  dsimp only
  rw [hgd]
  rfl

theorem slotCount_free (h : (w.slots key).guard = none) : slotCount g w key = (w.slots key).bytes := by
  unfold slotCount
  rw [h]

/-- A slot that nothing happens to is counted as before. -/
theorem slotCount_same {k : Key} (hguard : (w'.slots k).guard = (w.slots k).guard)
    (hbytes : (w'.slots k).bytes = (w.slots k).bytes) (hguards : s.guards k = (g i).guards k) :
    slotCount (Function.update g i s) w' k = slotCount g w k := by
  unfold slotCount
  rw [hguard]
  cases (w.slots k).guard with
  | none => exact hbytes
  | some j =>
    dsimp only
    by_cases hji : j = i
    · rw [hji, Function.update_self, hguards]
    · rw [Function.update_of_ne hji]

/-- A slot whose update is done is counted for what it takes up. -/
theorem slotCount_settled (hl : Locks g w) (hsettled : ∀ gd, (g i).guards key = some gd → gd.counted = gd.bytes)
    (hown : ∀ j, (w.slots key).guard = some j → j = i) : slotCount g w key = (w.slots key).bytes := by
  cases hguard : (w.slots key).guard with
  | none => exact slotCount_free hguard
  | some j =>
    obtain rfl := hown j hguard
    obtain ⟨gd, hgd⟩ := Option.isSome_iff_exists.mp (hl.guarded j key hguard)
    rw [slotCount_guard hl hgd, hsettled gd hgd, (hl.guard j key gd hgd).2.1]

namespace Counted

theorem mono (h : Counted c g w) (hamount : ∀ a, amount (Function.update g i s) w' a = amount g w a)
    (htotal : w'.total = w.total) (hknown : w.known ⊆ w'.known) (hbegun : w.begun ⊆ w'.begun) :
    Counted c (Function.update g i s) w' := by
  have hsubset : w.known.disjSum w.begun ⊆ w'.known.disjSum w'.begun := Finset.disjSum_mono hknown hbegun
  refine ⟨?_, htotal ▸ h.bounded⟩
  rw [funext hamount, htotal]
  exact h.balanced.mono hsubset

/-- Nothing that is counted has changed. -/
theorem quiet (h : Counted c g w) (hguard : ∀ k, (w'.slots k).guard = (w.slots k).guard)
    (hbytes : ∀ k, (w'.slots k).bytes = (w.slots k).bytes) (hguards : s.guards = (g i).guards)
    (hcounted : s.counted = (g i).counted) (htotal : w'.total = w.total) (hknown : w.known ⊆ w'.known)
    (hbegun : w.begun ⊆ w'.begun) : Counted c (Function.update g i s) w' := by
  refine h.mono ?_ htotal hknown hbegun
  rintro (k | j)
  · exact slotCount_same (hguard k) (hbytes k) (congrFun hguards k)
  · change (Function.update g i s j).counted = (g j).counted
    rw [Function.update_apply]
    split_ifs with hji
    · rw [hcounted, hji]
    · rfl

/-- The operation has reserved something, or given it back. -/
theorem pay (h : Counted c g w) (hi : i ∈ w.begun) (hguards : s.guards = (g i).guards) {total : Nat}
    (htotal : total + (g i).counted = w.total + s.counted) (hbounded : total ≤ c.max_bytes)
    {reservations : Nat → Nat} :
    Counted c (Function.update g i s) { w with total, reservations } := by
  refine ⟨h.balanced.set (a := .inr i) (fun hmem => ?_) ?_ ?_, hbounded⟩
  · exact (hmem (by simpa using hi)).elim
  · rintro (k | j) hji
    · exact slotCount_same rfl rfl (congrFun hguards k)
    · have hj : j ≠ i := fun hj => hji (congrArg Sum.inr hj)
      change (Function.update g i s j).counted = (g j).counted
      rw [Function.update_of_ne hj]
  · change total + (g i).counted = w.total + (Function.update g i s i).counted
    rw [Function.update_self, htotal]

/-- A slot has given something back before it says so. -/
theorem shrink (h : Counted c g w) (hl : Locks g w) {gd : Guarded} (hgd : (g i).guards key = some gd) {n : Nat}
    (hn : n ≤ gd.counted) (hl' : Locks (Function.update g i ((g i).setGuard key
      (some { gd with counted := gd.counted - n }))) { w with total := w.total - n }) :
    Counted c (Function.update g i ((g i).setGuard key (some { gd with counted := gd.counted - n })))
      { w with total := w.total - n } := by
  have hle := h.balanced.le (.inl key)
  change slotCount g w key ≤ w.total at hle
  rw [slotCount_guard hl hgd] at hle
  have hcount : slotCount (Function.update g i ((g i).setGuard key (some { gd with counted := gd.counted - n })))
      { w with total := w.total - n } key = gd.counted - n := by
    have hgd' : (Function.update g i ((g i).setGuard key (some { gd with counted := gd.counted - n })) i).guards key =
        some { gd with counted := gd.counted - n } := by
      rw [Function.update_self, Hold.setGuard_guards_self]
    exact slotCount_guard hl' hgd'
  refine ⟨h.balanced.set (a := .inl key) (fun hmem => ?_) ?_ ?_, (Nat.sub_le _ _).trans h.bounded⟩
  · have hzero : slotCount g w key = 0 := h.balanced.closed _ hmem
    rw [slotCount_guard hl hgd] at hzero
    refine hcount.trans ?_
    rw [hzero, Nat.zero_sub]
  · rintro (k | j) hkey
    · have hk : k ≠ key := fun hk => hkey (congrArg Sum.inl hk)
      refine slotCount_same rfl rfl ?_
      rw [Hold.setGuard_guards_ite, if_neg hk]
    · change (Function.update g i _ j).counted = (g j).counted
      rw [Function.update_apply]
      split_ifs with hji
      · rw [hji]
        rfl
      · rfl
  · change w.total - n + slotCount g w key = w.total + slotCount (Function.update g i _) _ key
    rw [slotCount_guard hl hgd, hcount]
    omega

/-- Something has moved between a slot and the operation. -/
theorem move (h : Counted c g w) (hl : Locks (Function.update g i s) w') (hi : i ∈ w.begun) {slot : Slot F}
    (hslots : w'.slots = Function.update w.slots key slot) (hknown : w'.known = w.known)
    (hbegun : w'.begun = w.begun) (htotal : w'.total = w.total)
    (hown : ∀ j, slot.guard = some j → j = i)
    (hsettled : ∀ gd, s.guards key = some gd → gd.counted = gd.bytes)
    (hguards : ∀ k, k ≠ key → s.guards k = (g i).guards k)
    (hsum : slot.bytes + s.counted = slotCount g w key + (g i).counted) :
    Counted c (Function.update g i s) w' := by
  have hslot : w'.slots key = slot := by rw [hslots, Function.update_self]
  have hcount : slotCount (Function.update g i s) w' key = slot.bytes := by
    rw [slotCount_settled (i := i) hl, hslot]
    · rwa [Function.update_self]
    · rwa [hslot]
  refine ⟨?_, htotal ▸ h.bounded⟩
  rw [hknown, hbegun, htotal]
  refine h.balanced.move (a := .inl key) (b := .inr i) (fun hmem => ?_) ?_ nofun ?_ ?_
  · have hunknown : key ∉ w'.known := by
      rw [hknown]
      simpa using hmem
    have hbytes := hl.unknown key hunknown
    rw [hslot] at hbytes
    exact hcount.trans hbytes
  · simpa using hi
  · rintro (k | j) hkey hji
    · have hk : k ≠ key := fun hk => hkey (congrArg Sum.inl hk)
      have hsame : w'.slots k = w.slots k := by rw [hslots, Function.update_of_ne hk]
      exact slotCount_same (by rw [hsame]) (by rw [hsame]) (hguards k hk)
    · have hj : j ≠ i := fun hj => hji (congrArg Sum.inr hj)
      change (Function.update g i s j).counted = (g j).counted
      rw [Function.update_of_ne hj]
  · change slotCount (Function.update g i s) w' key + (Function.update g i s i).counted = _
    rw [hcount, Function.update_self, hsum]
    rfl

theorem same (h : Counted c g w) : Counted c (Function.update g i (g i)) w := by
  rwa [Function.update_eq_self]

/-- A change of the phase is not counted. -/
theorem setPhase (h : Counted c g w) (phase : Phase F) : Counted c (Function.update g i ((g i).setPhase phase)) w :=
  h.quiet (fun _ => rfl) (fun _ => rfl) rfl rfl rfl subset_rfl subset_rfl

theorem commit (h : Counted c g w) (db : Db F) (phase : Phase F) :
    Counted c (Function.update g i ((g i).setPhase phase)) ((w.setFile key db).setBehind key true) :=
  h.quiet (fun _ => rfl) (fun _ => rfl) rfl rfl rfl subset_rfl subset_rfl

/-- A slot that differs in what is not counted. -/
theorem setSlot (h : Counted c g w) {slot : Slot F} (hguard : slot.guard = (w.slots key).guard)
    (hbytes : slot.bytes = (w.slots key).bytes) (hguards : s.guards = (g i).guards)
    (hcounted : s.counted = (g i).counted) : Counted c (Function.update g i s) (w.setSlot key slot) := by
  refine h.quiet (fun k => ?_) (fun k => ?_) hguards hcounted rfl subset_rfl subset_rfl
  · rw [setSlot_slots]
    split_ifs with hk
    · rw [hk, hguard]
    · rfl
  · rw [setSlot_slots]
    split_ifs with hk
    · rw [hk, hbytes]
    · rfl

/-- A guard that is taken. -/
theorem take (h : Counted c g w) (hi : i ∈ w.begun) (hfree : (w.slots key).guard = none) {copy : Option Nat}
    (hl : Locks (Function.update g i ((g i).setGuard key (some (.locked copy))))
      (w.setSlot key { w.slots key with guard := some i })) :
    Counted c (Function.update g i ((g i).setGuard key (some (.locked copy))))
      (w.setSlot key { w.slots key with guard := some i }) := by
  refine h.move hl hi rfl rfl rfl rfl (fun j hj => (Option.some.inj hj).symm) (fun gd hgd => ?_) (fun k hk => ?_) ?_
  · rw [Hold.setGuard_guards_self] at hgd
    obtain rfl := Option.some.inj hgd
    rfl
  · rw [Hold.setGuard_guards_ite, if_neg hk]
  · rw [slotCount_free hfree]
    rfl

/-- A guarded slot that is changed. -/
theorem change (h : Counted c g w) (hl : Locks g w) (hi : i ∈ w.begun) {gd gd' : Guarded}
    (hgd : (g i).guards key = some gd) (hl' : Locks (Function.update g i s) w') {slot : Slot F}
    (hslots : w'.slots = Function.update w.slots key slot) (hguard : slot.guard = (w.slots key).guard)
    (hknown : w'.known = w.known) (hbegun : w'.begun = w.begun) (htotal : w'.total = w.total)
    (hs : s.guards = ((g i).setGuard key (some gd')).guards) (hcalm : gd'.counted = gd'.bytes)
    (hsum : slot.bytes + s.counted = gd.counted + (g i).counted) : Counted c (Function.update g i s) w' := by
  refine h.move hl' hi hslots hknown hbegun htotal (fun j hj => ?_) (fun gd'' hgd'' => ?_) (fun k hk => ?_) ?_
  · rw [hguard, (hl.guard i key gd hgd).1] at hj
    exact (Option.some.inj hj).symm
  · rw [hs, Hold.setGuard_guards_self] at hgd''
    obtain rfl := Option.some.inj hgd''
    exact hcalm
  · rw [hs, Hold.setGuard_guards_ite, if_neg hk]
  · rw [slotCount_guard hl hgd, hsum]

/-- An update of a guarded copy is not accounted yet. -/
theorem update (h : Counted c g w) (hl : Locks g w) (hi : i ∈ w.begun) (hcalm : (g i).Calm) {gd : Guarded}
    (hgd : (g i).guards key = some gd) {f : Loaded F → Loaded F} {copy : Option Nat} {phase : Phase F}
    (hl' : Locks (Function.update g i (((g i).setGuard key (some { gd with copy })).setPhase phase))
      (w.update key f).2) :
    Counted c (Function.update g i (((g i).setGuard key (some { gd with copy })).setPhase phase))
      (w.update key f).2 := by
  refine h.change hl hi hgd hl' rfl rfl rfl rfl rfl rfl (hcalm.guards key gd hgd) ?_
  rw [hcalm.guards key gd hgd, ← (hl.guard i key gd hgd).2.1]
  rfl

/-- An effect keeps the budget. -/
theorem serve (h : Counted c g w) (hl : Locks g w) (hi : i ∈ w.begun) {e : Eff F} {o : Outcome} {r : e.Answer}
    (hallowed : Allowed (g i) e) (hserve : w.serve c serde i e o = some (r, w'))
    (hnext : Next serde (g i) e r s) (hl' : Locks (Function.update g i s) w') :
    Counted c (Function.update g i s) w' := by
  cases e with
  | dropped | last_used | total =>
    obtain ⟨-, rfl⟩ := Prod.mk.inj (Option.some.inj hserve)
    obtain rfl := hnext
    exact h.same
  | never => cases hserve
  | existing_slot key =>
    obtain ⟨-, rfl⟩ := Prod.mk.inj (Option.some.inj hserve)
    obtain rfl := hnext
    exact h.quiet (fun _ => rfl) (fun _ => rfl) rfl rfl rfl subset_rfl subset_rfl
  | slot key =>
    obtain ⟨-, rfl⟩ := Prod.mk.inj (Option.some.inj hserve)
    obtain rfl := hnext
    exact h.quiet (fun _ => rfl) (fun _ => rfl) rfl rfl rfl (Finset.subset_insert _ _) subset_rfl
  | slots =>
    obtain rfl := hnext
    cases o with
    | order keys =>
      rw [World.serve] at hserve
      split_ifs at hserve
      obtain ⟨-, rfl⟩ := Prod.mk.inj (Option.some.inj hserve)
      exact h.same
    | _ => cases hserve
  | touch key | unlock_read key | unlock_writer key =>
    obtain ⟨-, rfl⟩ := Prod.mk.inj (Option.some.inj hserve)
    obtain rfl := hnext
    exact h.setSlot rfl rfl rfl rfl
  | lock_writer key | read key =>
    rw [World.serve] at hserve
    split_ifs at hserve
    obtain ⟨-, rfl⟩ := Prod.mk.inj (Option.some.inj hserve)
    obtain rfl := hnext
    exact h.setSlot rfl rfl rfl rfl
  | write key =>
    rw [World.serve] at hserve
    split_ifs at hserve with hfree
    obtain ⟨-, rfl⟩ := Prod.mk.inj (Option.some.inj hserve)
    obtain ⟨copy, -, -, rfl⟩ := hnext
    exact h.take hi (Slot.guard_of_free hfree) hl'
  | try_write key =>
    rw [World.serve] at hserve
    split_ifs at hserve with hfree
    · obtain ⟨rfl, rfl⟩ := Prod.mk.inj (Option.some.inj hserve)
      obtain ⟨copy, -, rfl⟩ := hnext
      exact h.take hi (Slot.guard_of_free hfree) hl'
    · obtain ⟨rfl, rfl⟩ := Prod.mk.inj (Option.some.inj hserve)
      obtain rfl := hnext
      exact h.same
  | unlock_write key =>
    obtain ⟨hcalm, gd, hgd, -⟩ := hallowed
    obtain ⟨-, rfl⟩ := Prod.mk.inj (Option.some.inj hserve)
    obtain rfl := hnext
    refine h.move hl' hi rfl rfl rfl rfl (by rintro e ⟨⟩) (fun gd' hgd' => ?_) (fun k hk => ?_) ?_
    · rw [Hold.setGuard_guards_self] at hgd'
      cases hgd'
    · rw [Hold.setGuard_guards_ite, if_neg hk]
    · rw [slotCount_guard hl hgd, hcalm.guards key gd hgd, ← (hl.guard i key gd hgd).2.1]
      rfl
  | copy key =>
    obtain ⟨-, rfl⟩ := Prod.mk.inj (Option.some.inj hserve)
    obtain rfl := hnext
    exact h.setPhase _
  | take key =>
    obtain ⟨hcalm, gd, hgd⟩ := hallowed
    obtain ⟨-, rfl⟩ := Prod.mk.inj (Option.some.inj hserve)
    obtain ⟨gd', hgd', -, rfl⟩ := hnext
    obtain rfl := Option.some.inj (hgd.symm.trans hgd')
    refine h.change hl hi hgd hl' rfl rfl rfl rfl rfl rfl (hcalm.guards key gd hgd) ?_
    rw [hcalm.guards key gd hgd, ← (hl.guard i key gd hgd).2.1]
    rfl
  | push key rows =>
    obtain ⟨hcalm, -, -, -⟩ := hallowed
    obtain ⟨rfl, rfl⟩ := Prod.mk.inj (Option.some.inj hserve)
    obtain ⟨gd, hgd, -, rfl⟩ := hnext
    exact h.update hl hi hcalm hgd hl'
  | remove key id =>
    obtain ⟨hcalm, -, -, -⟩ := hallowed
    obtain ⟨rfl, rfl⟩ := Prod.mk.inj (Option.some.inj hserve)
    obtain ⟨gd, hgd, -, rfl⟩ := hnext
    exact h.update hl hi hcalm hgd hl'
  | install key l =>
    obtain ⟨hcalm, rfl, -, -, hgd, hreservation⟩ := hallowed
    obtain ⟨-, rfl⟩ := Prod.mk.inj (Option.some.inj hserve)
    obtain rfl := hnext
    refine h.change hl hi hgd hl' rfl rfl rfl rfl rfl rfl rfl ?_
    rw [hcalm.counted, hreservation]
    exact (Nat.zero_add _).symm
  | bytes key =>
    obtain ⟨-, rfl⟩ := Prod.mk.inj (Option.some.inj hserve)
    obtain ⟨rfl, -⟩ := hnext
    exact h.same
  | store_bytes key n =>
    obtain ⟨rfl, -, -, gd, hgd, hsum⟩ := hallowed
    obtain ⟨-, rfl⟩ := Prod.mk.inj (Option.some.inj hserve)
    obtain ⟨gd', hgd', rfl⟩ := hnext
    obtain rfl := Option.some.inj (hgd.symm.trans hgd')
    refine h.change hl hi hgd hl' rfl rfl rfl rfl rfl rfl rfl ?_
    change n + (g i).reservation = _
    omega
  | swap_bytes key =>
    obtain ⟨hcalm, gd, hgd, -⟩ := hallowed
    obtain ⟨rfl, rfl⟩ := Prod.mk.inj (Option.some.inj hserve)
    obtain ⟨gd', hgd', hr, rfl⟩ := hnext
    obtain rfl := Option.some.inj (hgd.symm.trans hgd')
    refine h.change hl hi hgd hl' rfl rfl rfl rfl rfl rfl rfl ?_
    change 0 + ((g i).counted + (w.slots key).bytes) = _
    rw [hcalm.guards key gd hgd, hr]
    omega
  | try_reserve n =>
    rw [World.serve] at hserve
    split_ifs at hserve with hroom
    · obtain ⟨rfl, rfl⟩ := Prod.mk.inj (Option.some.inj hserve)
      obtain rfl := hnext
      refine h.pay hi ?_ ?_ hroom
      · rfl
      · rw [if_pos rfl, Hold.setCounted_counted]
        omega
    · obtain ⟨rfl, rfl⟩ := Prod.mk.inj (Option.some.inj hserve)
      obtain rfl := hnext
      exact h.same
  | release n =>
    obtain ⟨-, rfl⟩ := Prod.mk.inj (Option.some.inj hserve)
    obtain rfl := hnext
    have hcounted : (g i).counted ≤ w.total := h.balanced.le (.inr i)
    have hbounded : w.total - n ≤ c.max_bytes := (Nat.sub_le _ _).trans h.bounded
    obtain ⟨hguards, hsurplus | ⟨hcalm, hn⟩⟩ := hallowed
    · rw [Hold.release_surplus hsurplus] at hl' ⊢
      refine h.pay hi ?_ ?_ hbounded
      · rfl
      · rw [Hold.setCounted_counted]
        omega
    · cases hgd : (g i).guards (g i).key with
      | some gd =>
        rw [hgd] at hn
        rw [Hold.release_slot hcalm hgd] at hl' ⊢
        exact h.shrink hl hgd (hn.trans_eq (hguards _ gd hgd).symm) hl'
      | none =>
        rw [hgd] at hn
        rw [Hold.release_reservation hgd] at hl' ⊢
        dsimp only at hn
        refine h.pay hi ?_ ?_ hbounded
        · rfl
        · rw [Hold.setCounted_counted]
          omega
  | reserved n =>
    obtain ⟨-, rfl⟩ := Prod.mk.inj (Option.some.inj hserve)
    obtain rfl := hnext
    exact h.quiet (fun _ => rfl) (fun _ => rfl) rfl rfl rfl subset_rfl subset_rfl
  | drop_reservation =>
    obtain ⟨-, rfl⟩ := Prod.mk.inj (Option.some.inj hserve)
    obtain rfl := hnext
    have hcounted : (g i).counted ≤ w.total := h.balanced.le (.inr i)
    have hreservation : w.reservations i = (g i).counted := (hl.reservation i).trans (Hold.Calm.counted hallowed).symm
    refine h.pay hi ?_ ?_ ((Nat.sub_le _ _).trans h.bounded)
    · rfl
    · change w.total - w.reservations i + (g i).counted = w.total + 0
      omega
  | collection_dim key =>
    obtain rfl := hnext
    cases o with
    | refused e =>
      obtain ⟨rfl, rfl⟩ := Prod.mk.inj (Option.some.inj hserve)
      exact h.setPhase _
    | _ =>
      obtain ⟨rfl, rfl⟩ := Prod.mk.inj (Option.some.inj hserve)
      exact h.setPhase _
  | estimate key dim =>
    obtain rfl := hnext
    cases o with
    | refused e =>
      obtain ⟨-, rfl⟩ := Prod.mk.inj (Option.some.inj hserve)
      exact h.same
    | _ =>
      obtain ⟨-, rfl⟩ := Prod.mk.inj (Option.some.inj hserve)
      exact h.same
  | page key last =>
    obtain rfl := hnext
    cases o with
    | refused e =>
      obtain ⟨rfl, rfl⟩ := Prod.mk.inj (Option.some.inj hserve)
      exact h.setPhase _
    | _ =>
      obtain ⟨rfl, rfl⟩ := Prod.mk.inj (Option.some.inj hserve)
      exact h.setPhase _
  | upsert key dim model rows =>
    obtain rfl := hnext
    rcases serve_upsert hserve with ⟨e, rfl, rfl⟩ | ⟨db, -, rfl, rfl⟩
    · exact h.setPhase _
    · exact h.commit db _
  | delete key id =>
    obtain rfl := hnext
    rcases serve_delete hserve with ⟨e, rfl, rfl⟩ | ⟨rfl, rfl⟩
    · exact h.setPhase _
    · exact h.commit _ _
  | swap_reembedded key model =>
    obtain rfl := hnext
    rcases serve_swap hserve with ⟨-, rfl⟩ | ⟨db, n, -, rfl, rfl⟩
    · exact h.setPhase _
    · exact h.commit db _

theorem begin (h : Counted c g w) (i : Nat) : Counted c g (w.begin i) := by
  rw [← Function.update_eq_self i g]
  refine h.mono (fun a => ?_) rfl subset_rfl (Finset.subset_insert _ _)
  rw [Function.update_eq_self]
  rfl

theorem env (h : Counted c g w) (move : EnvMove F) : Counted c g (move.apply w) := by
  cases move with
  | tick | shadow => exact ⟨h.balanced, h.bounded⟩

theorem counted_le (h : Counted c g w) (i : Nat) : (g i).counted ≤ w.total :=
  h.balanced.le (.inr i)

theorem slotCount_le (h : Counted c g w) (key : Key) : slotCount g w key ≤ w.total :=
  h.balanced.le (.inl key)

end Counted

/-! ## What is in progress -/

namespace Hold

/-- What the global counter has for the slot of an operation beyond what the slot says. -/
def slack (s : Hold F) : ℤ :=
  ((s.guards s.key).map fun gd => (gd.counted : ℤ) - gd.bytes).getD 0

/-- Only the slot of the operation itself is on its way to another size. -/
def Elsewhere (s : Hold F) : Prop :=
  ∀ k gd, k ≠ s.key → s.guards k = some gd → gd.counted = gd.bytes

theorem slack_some {gd : Guarded} (h : s.guards s.key = some gd) : s.slack = (gd.counted : ℤ) - gd.bytes := by
  unfold slack
  rw [h]
  rfl

theorem slack_none (h : s.guards s.key = none) : s.slack = 0 := by
  unfold slack
  rw [h]
  rfl

theorem slack_settled (h : ∀ k gd, s.guards k = some gd → gd.counted = gd.bytes) : s.slack = 0 := by
  cases hgd : s.guards s.key with
  | none => exact slack_none hgd
  | some gd =>
    rw [slack_some hgd, h s.key gd hgd]
    omega

/-- What the global counter has for an operation beyond its slot and its reservation. -/
def progress (s : Hold F) : ℤ :=
  s.counted - s.reservation + s.slack

theorem Calm.progress (h : s.Calm) : s.progress = 0 := by
  unfold Hold.progress
  rw [slack_settled h.guards, h.counted]
  omega

end Hold

theorem inProgress_of_allowed (hl : Locks g w) {e : Eff F} (k : e.Answer → Act F Unit) (h : Allowed (g i) e) :
    (g i).Elsewhere ∧ InProgress w i (.call e k) (g i).progress := by
  have hcalm : (g i).Calm → (g i).Elsewhere ∧ (g i).progress = 0 :=
    fun h => ⟨fun k gd _ => h.guards k gd, h.progress⟩
  cases e with
  | store_bytes key n =>
    obtain ⟨rfl, -, hother, gd, hgd, hsum⟩ := h
    refine ⟨fun k gd hk => hother k gd hk, ?_⟩
    change (g i).progress = n - (w.slots (g i).key).bytes
    unfold Hold.progress
    rw [Hold.slack_some hgd, (hl.guard i _ gd hgd).2.1]
    omega
  | reserved n =>
    obtain ⟨hcounted, hguards⟩ := h
    refine ⟨fun k gd _ => hguards k gd, ?_⟩
    change (g i).progress = n - w.reservations i
    unfold Hold.progress
    rw [Hold.slack_settled hguards, hl.reservation i]
    omega
  | release n =>
    obtain ⟨hguards, hn⟩ := h
    refine ⟨fun k gd _ => hguards k gd, ?_⟩
    change (g i).progress = 0 ∨ (g i).progress = n
    unfold Hold.progress
    rw [Hold.slack_settled hguards]
    rcases hn with hn | hn <;> omega
  | lock_writer | unlock_writer | write | unlock_write | take | push | remove | install | swap_bytes | page
  | copy | collection_dim | upsert | delete | swap_reembedded => exact hcalm h.1
  | _ => exact hcalm h

theorem inProgress_of_obeys (hl : Locks g w) {task : Act F Unit}
    (h : Obeys (protocol serde) (fun s _ => s.Idle) (g i) task) :
    (g i).Elsewhere ∧ InProgress w i task (g i).progress := by
  rcases allowed_of_obeys h with ⟨a, rfl, hidle⟩ | ⟨e, k, rfl, hallowed⟩
  · exact ⟨fun k gd _ => hidle.calm.guards k gd, hidle.calm.progress⟩
  · exact inProgress_of_allowed hl k hallowed

/-- What is counted for a slot beyond what it says is on its way by one operation. -/
theorem slotCount_sub (hl : Locks g w) (helsewhere : ∀ i, (g i).Elsewhere) (key : Key) :
    (slotCount g w key : ℤ) - (w.slots key).bytes = ∑ i ∈ w.begun, if (g i).key = key then (g i).slack else 0 := by
  have hother : ∀ i, (w.slots key).guard ≠ some i → (if (g i).key = key then (g i).slack else 0) = 0 := by
    intro i hne
    split_ifs with hkey
    · refine Hold.slack_none ?_
      rw [hkey]
      cases hgd : (g i).guards key with
      | none => rfl
      | some gd => exact (hne (hl.guard i key gd hgd).1).elim
    · rfl
  cases hguard : (w.slots key).guard with
  | none =>
    rw [slotCount_free hguard, Finset.sum_eq_zero fun i _ => hother i (by rw [hguard]; exact nofun)]
    omega
  | some j =>
    obtain ⟨gd, hgd⟩ := Option.isSome_iff_exists.mp (hl.guarded j key hguard)
    have hbegun : j ∈ w.begun := by
      by_contra hnot
      rw [hl.fresh j hnot] at hgd
      cases hgd
    rw [Finset.sum_eq_single_of_mem j hbegun fun i _ hij => hother i fun hi => ?_]
    · rw [slotCount_guard hl hgd, (hl.guard j key gd hgd).2.1]
      split_ifs with hkey
      · exact (Hold.slack_some (hkey ▸ hgd)).symm
      · rw [helsewhere j key gd (Ne.symm hkey) hgd]
        omega
    · rw [hguard] at hi
      exact hij (Option.some.inj hi).symm

/-- What is in progress is all that the slots and the reservations do not say. -/
theorem Counted.total_eq (h : Counted c g w) (hl : Locks g w) (helsewhere : ∀ i, (g i).Elsewhere) :
    (w.total : ℤ) = ∑ key ∈ w.known, ((w.slots key).bytes : ℤ) +
      ∑ i ∈ w.begun, ((w.reservations i : ℤ) + (g i).progress) := by
  have hslack : ∑ key ∈ w.known, ((slotCount g w key : ℤ) - (w.slots key).bytes) = ∑ i ∈ w.begun, (g i).slack := by
    rw [Finset.sum_congr rfl fun key _ => slotCount_sub hl helsewhere key, Finset.sum_comm]
    refine Finset.sum_congr rfl fun i _ => ?_
    rw [Finset.sum_ite_eq]
    split_ifs with hknown
    · rfl
    · cases hgd : (g i).guards (g i).key with
      | none => exact (Hold.slack_none hgd).symm
      | some gd =>
        have hzero : slotCount g w (g i).key = 0 := h.balanced.closed (.inl (g i).key) (by simpa using hknown)
        have hbytes := hl.unknown _ hknown
        rw [Hold.slack_some hgd, ← slotCount_guard hl hgd, ← (hl.guard i _ gd hgd).2.1, hzero, hbytes]
        rfl
  have htotal : (w.total : ℤ) = ∑ key ∈ w.known, (slotCount g w key : ℤ) + ∑ i ∈ w.begun, ((g i).counted : ℤ) := by
    rw [← h.balanced.sum, Finset.sum_disjSum, Nat.cast_add, Nat.cast_sum, Nat.cast_sum]
    rfl
  have hoperations : ∑ i ∈ w.begun, ((w.reservations i : ℤ) + (g i).progress) =
      ∑ i ∈ w.begun, ((g i).counted : ℤ) + ∑ i ∈ w.begun, (g i).slack := by
    rw [← Finset.sum_add_distrib]
    refine Finset.sum_congr rfl fun i _ => ?_
    unfold Hold.progress
    rw [hl.reservation i]
    omega
  rw [Finset.sum_sub_distrib] at hslack
  omega

/-- No release takes more than there is. -/
theorem Counted.release_le (h : Counted c g w) (hl : Locks g w) {n : Nat} (hn : (g i).CanRelease n) :
    n ≤ w.total := by
  have hcounted := h.counted_le i
  obtain ⟨hguards, hsurplus | ⟨-, hn⟩⟩ := hn
  · omega
  · cases hgd : (g i).guards (g i).key with
    | some gd =>
      rw [hgd] at hn
      have hslot := h.slotCount_le (g i).key
      rw [slotCount_guard hl hgd, hguards _ gd hgd] at hslot
      exact hn.trans hslot
    | none =>
      rw [hgd] at hn
      exact hn.trans hcounted

/-! ## Runs -/

variable {S : Type} [LinearOrder S] {E : Env F S} {files : String → { db : Db F // db.WellFormed }}
  {spawn : Nat → Op F × Nat} {trace : List (OpLabel F)} {p : Ops F}

theorem counted_start (E : Env F S) (files : String → { db : Db F // db.WellFormed }) (spawn : Nat → Op F × Nat) :
    Counted c (fun i => .start (spawn i).1.key) (Ops.start E files spawn).world where
  balanced := {
    closed := by
      rintro (key | i) -
      · rfl
      · rfl
    sum := rfl }
  bounded := Nat.zero_le _

/-- Whatever the operations do, and in whatever order, the budget is kept. -/
theorem budget_kept (hrun : Run (OpStep E) (.start E files spawn) trace p) : Accounted E.c p := by
  have hinv : PoolInv (protocol E.serde) (fun _ s _ => s.Idle)
      (fun g (_ : List (OpLabel F)) w => Kept E.serde g w ∧ Counted E.c g w) trace p := by
    refine hrun.invariant ?_ fun trace p l p' hp hstep => ?_
    · exact ⟨_, ⟨kept_start E files spawn, counted_start E files spawn⟩,
        fun i => obeys_task E (spawn i).2 (spawn i).1⟩
    · refine hp.step ?_ ?_ hstep
      · rintro g trace w i e r w' ⟨hkept, hcounted⟩ hallowed ⟨o, hserve⟩
        have hi : i ∈ (w.begin i).begun := Finset.mem_insert_self _ _
        obtain ⟨s, hnext, hkept'⟩ := (hkept.begin i).serve hi hallowed hserve
        exact ⟨s, hnext, hkept', (hcounted.begin i).serve (hkept.begin i).locks hi hallowed hserve hnext
          hkept'.locks⟩
      · rintro g trace w l w' ⟨hkept, hcounted⟩ rfl
        exact ⟨hkept.env l, hcounted.env l⟩
  obtain ⟨g, ⟨⟨hlocks, -⟩, hcounted⟩, hobeys⟩ := hinv
  have hprogress := fun i => inProgress_of_obeys hlocks (hobeys i)
  have hidle : ∀ i, i ∉ p.world.begun → (g i).Idle := by
    intro i hi
    rw [hlocks.fresh i hi]
    exact ⟨fun _ => rfl, rfl, rfl, rfl, rfl⟩
  constructor
  · refine ⟨fun i => (g i).progress, fun i => (hprogress i).2, fun i hi => (hidle i hi).calm.progress, ?_⟩
    exact hcounted.total_eq hlocks fun i => (hprogress i).1
  · exact hlocks.unknown
  · intro i hi
    rw [hlocks.reservation i, (hidle i hi).reservation]
  · exact hcounted.bounded
  · intro i n k htask
    have hallowed := hobeys i
    rw [htask] at hallowed
    exact hcounted.release_le hlocks hallowed.1
  · intro i k htask
    have hallowed := hobeys i
    rw [htask] at hallowed
    rw [hlocks.reservation i, ← Hold.Calm.counted hallowed.1]
    exact hcounted.counted_le i
  · exact hlocks.free

theorem budget_kept_sample : ∃ r, runOps writeAndSearch loadWritten = some r ∧
    r.2.world.total = 125 ∧ Accounted smallCache.c r.2 := by
  have hsome : ((runOps writeAndSearch loadWritten).any fun r => r.2.world.total = 125) = true := by
    decide
  obtain ⟨r, hr, htotal⟩ := (Option.any_eq_true _ _).mp hsome
  exact ⟨r, hr, of_decide_eq_true htotal, budget_kept (run_runOps hr)⟩

end VectorDb.VecCache
