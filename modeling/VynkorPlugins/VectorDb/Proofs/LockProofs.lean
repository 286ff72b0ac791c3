import VynkorPlugins.VectorDb.Proofs.CacheProofs

/-!
# The locks of the cache

What the operations hold is what the slots say: a lock has one owner, who alone changes what it guards.
-/

namespace VectorDb.VecCache

open Async

variable {F : Type} {serde : Serde} {c : CacheConfig} {g : Nat → Hold F} {w w' : World F} {i : Nat}
  {s : Hold F} {key : Key}

/-- The operations hold what they think they hold. -/
structure Locks (g : Nat → Hold F) (w : World F) : Prop where
  writer : ∀ i, (g i).writer = true → (w.slots (g i).key).writer = some i
  guard : ∀ i k gd, (g i).guards k = some gd → (w.slots k).guard = some i ∧
    (w.slots k).bytes = gd.bytes ∧ (w.slots k).state.map Loaded.bytes = gd.copy
  guarded : ∀ i k, (w.slots k).guard = some i → ((g i).guards k).isSome
  free : ∀ k, (w.slots k).guard = none → (w.slots k).bytes = (w.slots k).held
  seen : ∀ i, (g i).seen = true → (g i).key ∈ w.known
  unknown : ∀ k, k ∉ w.known → (w.slots k).bytes = 0
  reservation : ∀ i, w.reservations i = (g i).reservation
  fresh : ∀ i, i ∉ w.begun → g i = .start (g i).key

/-- Nobody can tell two slots apart but by their readers and the time they were used. -/
structure Slot.Same (a b : Slot F) : Prop where
  state : b.state = a.state
  guard : b.guard = a.guard
  writer : b.writer = a.writer
  bytes : b.bytes = a.bytes

theorem Slot.guard_of_free {a : Slot F} (h : a.free = true) : a.guard = none := by
  unfold Slot.free at h
  exact (of_decide_eq_true h).1

theorem Slot.Same.refl (a : Slot F) : a.Same a :=
  ⟨rfl, rfl, rfl, rfl⟩

theorem Slot.Same.held {a b : Slot F} (h : a.Same b) : b.held = a.held := by
  unfold Slot.held
  rw [h.state]

@[simp]
theorem setSlot_slots (k k' : Key) (a : Slot F) :
    (w.setSlot k a).slots k' = if k' = k then a else w.slots k' :=
  Function.update_apply ..

/-- A slot is replaced by one that nobody can tell apart. -/
theorem same_setSlot {a : Slot F} (h : (w.slots key).Same a) (k : Key) :
    (w.slots k).Same ((w.setSlot key a).slots k) := by
  rw [setSlot_slots]
  split_ifs with hk
  · rw [hk]
    exact h
  · exact .refl _

/-! ## Transactions -/

section

variable {o : Outcome} {model : Option String} {dim : Nat} {rows : List (UpsertRow F)}

/-- A write is refused, or committed. -/
theorem serve_upsert {r : Except String Unit} (h : w.serve c serde i (.upsert key dim model rows) o = some (r, w')) :
    (∃ e, r = .error e ∧ w' = w) ∨
      ∃ db, (w.files key.1).upsert key.2 dim model rows = .ok db ∧ r = .ok () ∧
        w' = (w.setFile key db).setBehind key true := by
  cases o with
  | refused e =>
    obtain ⟨rfl, rfl⟩ := Prod.mk.inj (Option.some.inj h)
    exact .inl ⟨e, rfl, rfl⟩
  | _ =>
    have h := Option.some.inj h
    unfold World.upsert at h
    split at h
    · obtain ⟨rfl, rfl⟩ := Prod.mk.inj h
      exact .inl ⟨_, rfl, rfl⟩
    · rename_i db hdb
      obtain ⟨rfl, rfl⟩ := Prod.mk.inj h
      exact .inr ⟨db, hdb, rfl, rfl⟩

theorem serve_delete {id : String} {r : Except String Bool}
    (h : w.serve c serde i (.delete key id) o = some (r, w')) :
    (∃ e, r = .error e ∧ w' = w) ∨ r = .ok ((w.files key.1).delete key.2 id).2 ∧
      w' = (w.setFile key ((w.files key.1).delete key.2 id).1).setBehind key true := by
  cases o with
  | refused e =>
    obtain ⟨rfl, rfl⟩ := Prod.mk.inj (Option.some.inj h)
    exact .inl ⟨e, rfl, rfl⟩
  | _ =>
    obtain ⟨rfl, rfl⟩ := Prod.mk.inj (Option.some.inj h)
    exact .inr ⟨rfl, rfl⟩

/-- A swap that is not done changes nothing. -/
theorem serve_swap {model : String} {r : Except String SwapOutcome}
    (h : w.serve c serde i (.swap_reembedded key model) o = some (r, w')) :
    ((∀ n, r ≠ .ok (.Done n)) ∧ w' = w) ∨
      ∃ db n, (w.files key.1).swap_reembedded key.2 model = .ok (db, .Done n) ∧ r = .ok (.Done n) ∧
        w' = (w.setFile key db).setBehind key true := by
  cases o with
  | refused e =>
    obtain ⟨rfl, rfl⟩ := Prod.mk.inj (Option.some.inj h)
    exact .inl ⟨nofun, rfl⟩
  | _ =>
    have h := Option.some.inj h
    unfold World.swap_reembedded at h
    split at h
    · obtain ⟨rfl, rfl⟩ := Prod.mk.inj h
      exact .inl ⟨nofun, rfl⟩
    · obtain ⟨rfl, rfl⟩ := Prod.mk.inj h
      exact .inl ⟨nofun, rfl⟩
    · rename_i db n hdb
      obtain ⟨rfl, rfl⟩ := Prod.mk.inj h
      exact .inr ⟨db, n, hdb, rfl, rfl⟩

end

namespace Locks

/-- An operation that changes no slot. -/
theorem quiet (h : Locks g w) (hi : i ∈ w'.begun) (hslots : ∀ k, (w.slots k).Same (w'.slots k))
    (hknown : w.known ⊆ w'.known) (hbegun : w.begun ⊆ w'.begun) (hkey : s.key = (g i).key)
    (hwriter : s.writer = (g i).writer) (hguards : s.guards = (g i).guards)
    (hseen : s.seen = true → s.key ∈ w'.known)
    (hreservations : ∀ j, w'.reservations j = if j = i then s.reservation else w.reservations j) :
    Locks (Function.update g i s) w' where
  writer j hj := by
    rw [Function.update_apply] at hj ⊢
    split_ifs at hj ⊢ with hji
    · subst hji
      rw [hkey, (hslots _).writer]
      exact h.writer j (hwriter ▸ hj)
    · rw [(hslots _).writer]
      exact h.writer j hj
  guard j k gd hgd := by
    have hgd : (g j).guards k = some gd := by
      rw [Function.update_apply] at hgd
      split_ifs at hgd with hji
      · rwa [hji, ← hguards]
      · exact hgd
    rw [(hslots k).guard, (hslots k).bytes, (hslots k).state]
    exact h.guard j k gd hgd
  guarded j k hj := by
    rw [(hslots k).guard] at hj
    rw [Function.update_apply]
    split_ifs with hji
    · rw [hguards, ← hji]
      exact h.guarded j k hj
    · exact h.guarded j k hj
  free k hk := by
    rw [(hslots k).guard] at hk
    rw [(hslots k).bytes, (hslots k).held]
    exact h.free k hk
  seen j hj := by
    rw [Function.update_apply] at hj ⊢
    split_ifs at hj ⊢
    · exact hseen hj
    · exact hknown (h.seen j hj)
  unknown k hk := by
    rw [(hslots k).bytes]
    exact h.unknown k fun hmem => hk (hknown hmem)
  reservation j := by
    rw [hreservations, Function.update_apply]
    split_ifs
    · rfl
    · exact h.reservation j
  fresh j hj := by
    have hji : j ≠ i := fun hji => hj (hji ▸ hi)
    rw [Function.update_of_ne hji]
    exact h.fresh j fun hmem => hj (hbegun hmem)

/-- An operation that takes, changes or gives back a slot, of which it has the guard before or after. -/
theorem act (h : Locks g w) (hi : i ∈ w.begun) {slot : Slot F}
    (hslots : w'.slots = Function.update w.slots key slot) (hknown : w'.known = w.known)
    (hbegun : w'.begun = w.begun) (howner : ∀ j, (w.slots key).guard = some j → j = i)
    (hsettled : match s.guards key with
      | some gd => slot.guard = some i ∧ slot.bytes = gd.bytes ∧ slot.state.map Loaded.bytes = gd.copy
      | none => slot.guard = none ∧ slot.bytes = slot.held)
    (hslot : slot.writer = (w.slots key).writer) (hbytes : key ∉ w.known → slot.bytes = 0)
    (hkey : s.key = (g i).key) (hwriter : s.writer = (g i).writer) (hseen : s.seen = (g i).seen)
    (hguards : ∀ k, k ≠ key → s.guards k = (g i).guards k)
    (hreservations : ∀ j, w'.reservations j = if j = i then s.reservation else w.reservations j) :
    Locks (Function.update g i s) w' where
  writer j hj := by
    have hall : ∀ k, (w'.slots k).writer = (w.slots k).writer := by
      intro k
      rw [hslots, Function.update_apply]
      split_ifs with hk
      · rw [hk, hslot]
      · rfl
    rw [hall]
    rw [Function.update_apply] at hj ⊢
    split_ifs at hj ⊢ with hji
    · rw [hji, hkey]
      exact h.writer i (hwriter ▸ hj)
    · exact h.writer j hj
  guard j k gd hgd := by
    rw [hslots]
    by_cases hk : k = key
    · subst hk
      rw [Function.update_self]
      by_cases hji : j = i
      · subst hji
        rw [Function.update_self] at hgd
        rwa [hgd] at hsettled
      · rw [Function.update_of_ne hji] at hgd
        exact (hji (howner j (h.guard j k gd hgd).1)).elim
    · rw [Function.update_of_ne hk]
      rw [Function.update_apply] at hgd
      split_ifs at hgd with hji
      · rw [hji]
        exact h.guard i k gd (hguards k hk ▸ hgd)
      · exact h.guard j k gd hgd
  guarded j k hj := by
    rw [hslots] at hj
    by_cases hk : k = key
    · subst hk
      rw [Function.update_self] at hj
      cases hgd : s.guards k with
      | none =>
        rw [hgd] at hsettled
        rw [hsettled.1] at hj
        cases hj
      | some gd =>
        rw [hgd] at hsettled
        obtain rfl : i = j := Option.some.inj (hsettled.1.symm.trans hj)
        rw [Function.update_self, hgd]
        rfl
    · rw [Function.update_of_ne hk] at hj
      rw [Function.update_apply]
      split_ifs with hji
      · rw [hguards k hk, ← hji]
        exact h.guarded j k hj
      · exact h.guarded j k hj
  free k hk := by
    rw [hslots] at hk ⊢
    by_cases hkk : k = key
    · subst hkk
      rw [Function.update_self] at hk ⊢
      cases hgd : s.guards k with
      | none =>
        rw [hgd] at hsettled
        exact hsettled.2
      | some gd =>
        rw [hgd] at hsettled
        rw [hsettled.1] at hk
        cases hk
    · rw [Function.update_of_ne hkk] at hk ⊢
      exact h.free k hk
  seen j hj := by
    rw [hknown]
    rw [Function.update_apply] at hj ⊢
    split_ifs at hj ⊢ with hji
    · rw [hkey]
      exact h.seen i (hseen ▸ hj)
    · exact h.seen j hj
  unknown k hk := by
    rw [hknown] at hk
    rw [hslots, Function.update_apply]
    split_ifs with hkk
    · exact hbytes (hkk ▸ hk)
    · exact h.unknown k hk
  reservation j := by
    rw [hreservations, Function.update_apply]
    split_ifs
    · rfl
    · exact h.reservation j
  fresh j hj := by
    rw [hbegun] at hj
    have hji : j ≠ i := fun hji => hj (hji ▸ hi)
    rw [Function.update_of_ne hji]
    exact h.fresh j hj

/-- An operation that takes the writer lock, or gives it back. -/
theorem lockWriter (h : Locks g w) (hi : i ∈ w.begun) {owner : Option Nat}
    (hkey : key = (g i).key)
    (hslot : (w.slots key).writer = none ∨ (g i).writer = true)
    (howner : s.writer = true → owner = some i) (hs : s.key = (g i).key) (hseen : s.seen = (g i).seen)
    (hguards : s.guards = (g i).guards) (hreservation : s.reservation = (g i).reservation) :
    Locks (Function.update g i s) (w.setSlot key { w.slots key with writer := owner }) := by
  have hother : ∀ j, j ≠ i → (g j).writer = true → (g j).key ≠ key := by
    intro j hji hj hk
    have hown := h.writer j hj
    rw [hk] at hown
    rcases hslot with hnone | hmine
    · rw [hnone] at hown
      cases hown
    · have hi := h.writer i hmine
      rw [← hkey, hown] at hi
      exact hji (Option.some.inj hi)
  have hslots : ∀ k, ((w.setSlot key { w.slots key with writer := owner }).slots k) =
      if k = key then { w.slots key with writer := owner } else w.slots k := fun k => setSlot_slots key k _
  have hstate : ∀ k, ((w.setSlot key { w.slots key with writer := owner }).slots k).guard = (w.slots k).guard ∧
      ((w.setSlot key { w.slots key with writer := owner }).slots k).bytes = (w.slots k).bytes ∧
      ((w.setSlot key { w.slots key with writer := owner }).slots k).state = (w.slots k).state := by
    intro k
    rw [hslots]
    split_ifs with hk
    · rw [hk]
      exact ⟨rfl, rfl, rfl⟩
    · exact ⟨rfl, rfl, rfl⟩
  constructor
  · intro j hj
    rw [hslots]
    by_cases hji : j = i
    · subst hji
      rw [Function.update_self] at hj ⊢
      rw [hs, if_pos hkey.symm]
      exact howner hj
    · rw [Function.update_of_ne hji] at hj ⊢
      rw [if_neg (hother j hji hj)]
      exact h.writer j hj
  · intro j k gd hgd
    rw [(hstate k).1, (hstate k).2.1, (hstate k).2.2]
    rw [Function.update_apply] at hgd
    split_ifs at hgd with hji
    · rw [hji]
      exact h.guard i k gd (hguards ▸ hgd)
    · exact h.guard j k gd hgd
  · intro j k hj
    rw [(hstate k).1] at hj
    rw [Function.update_apply]
    split_ifs with hji
    · rw [hguards, ← hji]
      exact h.guarded j k hj
    · exact h.guarded j k hj
  · intro k hk
    rw [(hstate k).1] at hk
    unfold Slot.held
    rw [(hstate k).2.1, (hstate k).2.2]
    exact h.free k hk
  · intro j hj
    rw [Function.update_apply] at hj ⊢
    split_ifs at hj ⊢ with hji
    · rw [hs]
      exact h.seen i (hseen ▸ hj)
    · exact h.seen j hj
  · intro k hk
    rw [(hstate k).2.1]
    exact h.unknown k hk
  · intro j
    rw [Function.update_apply]
    split_ifs with hji
    · rw [hreservation, ← hji]
      exact h.reservation j
    · exact h.reservation j
  · intro j hj
    have hji : j ≠ i := fun hji => hj (hji ▸ hi)
    rw [Function.update_of_ne hji]
    exact h.fresh j hj

theorem unreserved (h : Locks g w) (i j : Nat) :
    w.reservations j = if j = i then (g i).reservation else w.reservations j := by
  split_ifs with hji
  · rw [hji]
    exact h.reservation i
  · rfl

/-- An operation begins. -/
theorem begin (h : Locks g w) (i : Nat) : Locks g (w.begin i) := by
  rw [← Function.update_eq_self i g]
  exact h.quiet (Finset.mem_insert_self _ _) (fun k => .refl _) subset_rfl (Finset.subset_insert _ _) rfl
    rfl rfl (h.seen i) (h.unreserved i)

theorem same (h : Locks g w) : Locks (Function.update g i (g i)) w := by
  rwa [Function.update_eq_self]

/-- Only the slots that nobody can tell apart, and what is not locked, has changed. -/
theorem still (h : Locks g w) (hi : i ∈ w.begun) (phase : Phase F) (counted : Nat) (hslots : ∀ k, (w.slots k).Same (w'.slots k))
    (hknown : w'.known = w.known) (hbegun : w'.begun = w.begun)
    (hreservations : w'.reservations = w.reservations) :
    Locks (Function.update g i (((g i).setPhase phase).setCounted counted)) w' := by
  refine h.quiet (hbegun ▸ hi) hslots hknown.ge hbegun.ge rfl rfl rfl (hknown ▸ h.seen i) ?_
  rw [hreservations]
  exact h.unreserved i

theorem setPhase (h : Locks g w) (hi : i ∈ w.begun) (phase : Phase F) :
    Locks (Function.update g i ((g i).setPhase phase)) w :=
  h.still hi phase (g i).counted (fun _ => .refl _) rfl rfl rfl

theorem setCounted (h : Locks g w) (hi : i ∈ w.begun) (counted total : Nat) :
    Locks (Function.update g i ((g i).setCounted counted)) { w with total } :=
  h.still hi (g i).phase counted (fun _ => .refl _) rfl rfl rfl

/-- A commit changes a file, and what is behind it. -/
theorem commit (h : Locks g w) (hi : i ∈ w.begun) (key : Key) (db : Db F) (phase : Phase F) :
    Locks (Function.update g i ((g i).setPhase phase)) ((w.setFile key db).setBehind key true) :=
  h.still hi phase (g i).counted (fun _ => .refl _) rfl rfl rfl

/-- A guard that is taken. -/
theorem take (h : Locks g w) (hi : i ∈ w.begun) (hfree : (w.slots key).guard = none) :
    (g i).guards key = none ∧
      Locks (Function.update g i ((g i).setGuard key (some (.locked ((w.slots key).state.map Loaded.bytes)))))
        (w.setSlot key { w.slots key with guard := some i }) := by
  constructor
  · cases hgd : (g i).guards key with
    | none => rfl
    | some gd =>
      have hguard := (h.guard i key gd hgd).1
      rw [hfree] at hguard
      cases hguard
  · refine h.act hi rfl rfl rfl (fun j hj => ?_) ?_ rfl (h.unknown key) rfl rfl rfl (fun k hk => ?_)
      (h.unreserved i)
    · rw [hfree] at hj
      cases hj
    · rw [Hold.setGuard_guards_self]
      exact ⟨rfl, h.free key hfree, rfl⟩
    · rw [Hold.setGuard_guards_ite, if_neg hk]

/-- What is guarded is changed. -/
theorem change (h : Locks g w) (hi : i ∈ w.begun) {gd : Guarded} (hgd : (g i).guards key = some gd)
    (state : Option (Loaded F)) (bytes counted : Nat) (hslots : w'.slots =
      Function.update w.slots key { w.slots key with state, bytes }) (hknown : w'.known = w.known)
    (hbegun : w'.begun = w.begun) (hbytes : key ∉ w.known → bytes = 0)
    (hs : s.guards = ((g i).setGuard key (some ⟨bytes, state.map Loaded.bytes, counted⟩)).guards)
    (hkey : s.key = (g i).key) (hwriter : s.writer = (g i).writer) (hseen : s.seen = (g i).seen)
    (hreservations : ∀ j, w'.reservations j = if j = i then s.reservation else w.reservations j) :
    Locks (Function.update g i s) w' := by
  have hguard := (h.guard i key gd hgd).1
  refine h.act hi hslots hknown hbegun (fun j hj => ?_) ?_ rfl hbytes hkey hwriter hseen (fun k hk => ?_)
    hreservations
  · exact Option.some.inj (hj.symm.trans hguard)
  · rw [hs, Hold.setGuard_guards_self]
    exact ⟨hguard, rfl, rfl⟩
  · rw [hs, Hold.setGuard_guards_ite, if_neg hk]

/-- What an operation gives back changes what is counted, and nothing else. -/
theorem release (h : Locks g w) (hi : i ∈ w.begun) (n total : Nat) :
    Locks (Function.update g i ((g i).release n)) { w with total } := by
  unfold Hold.release
  split_ifs
  · exact h.setCounted hi _ _
  · split
    · rename_i gd hgd
      obtain ⟨-, hbytes, hcopy⟩ := h.guard i _ gd hgd
      refine h.change hi hgd (w.slots (g i).key).state (w.slots (g i).key).bytes (gd.counted - n) ?_ rfl rfl (h.unknown _) ?_ rfl rfl rfl (h.unreserved i)
      · exact (Function.update_eq_self _ _).symm
      · rw [hbytes, hcopy]
    · exact h.setCounted hi _ _

/-- An update of a guarded copy. -/
theorem update (h : Locks g w) (hi : i ∈ w.begun) {gd : Guarded} (hgd : (g i).guards key = some gd)
    (f : Loaded F → Loaded F) :
    (w.update key f).1.isSome = gd.copy.isSome ∧
      Locks (Function.update g i (((g i).setGuard key (some { gd with copy := (w.update key f).1 })).setPhase .idle))
        (w.update key f).2 := by
  obtain ⟨-, hbytes, hcopy⟩ := h.guard i _ gd hgd
  refine ⟨?_, h.change hi hgd _ _ gd.counted rfl rfl rfl (h.unknown _) ?_ rfl rfl rfl (h.unreserved i)⟩
  · unfold World.update
    rw [← hcopy, Option.isSome_map, Option.isSome_map, Option.isSome_map]
  · rw [hbytes]
    rfl

/-- An effect leaves the operations with what they think they hold. -/
theorem serve (h : Locks g w) (hi : i ∈ w.begun) {e : Eff F} {o : Outcome} {r : e.Answer}
    (hempty : (g i).phase.empty → (w.slots (g i).key).state = none) (hallowed : Allowed (g i) e)
    (hserve : w.serve c serde i e o = some (r, w')) :
    ∃ s, Next serde (g i) e r s ∧ Locks (Function.update g i s) w' := by
  have hsame := fun k => Slot.Same.refl (w.slots k)
  cases e with
  | dropped =>
    obtain ⟨-, rfl⟩ := Prod.mk.inj (Option.some.inj hserve)
    exact ⟨_, rfl, h.same⟩
  | never => cases hserve
  | existing_slot key =>
    obtain ⟨rfl, rfl⟩ := Prod.mk.inj (Option.some.inj hserve)
    refine ⟨_, rfl, h.quiet hi hsame subset_rfl subset_rfl rfl rfl rfl (fun hseen => ?_) (h.unreserved i)⟩
    rw [Hold.setSeen_seen, Bool.or_eq_true, Bool.and_eq_true, decide_eq_true_eq, decide_eq_true_eq] at hseen
    rcases hseen with hseen | ⟨hmem, hkey⟩
    · exact h.seen i hseen
    · exact hkey ▸ hmem
  | slot key =>
    obtain ⟨-, rfl⟩ := Prod.mk.inj (Option.some.inj hserve)
    refine ⟨_, rfl, h.quiet hi hsame (Finset.subset_insert _ _) subset_rfl rfl rfl rfl (fun hseen => ?_)
      (h.unreserved i)⟩
    rw [Hold.setSeen_seen, Bool.or_eq_true, decide_eq_true_eq] at hseen
    rw [Hold.setSeen_key]
    rcases hseen with hseen | hkey
    · exact Finset.mem_insert_of_mem (h.seen i hseen)
    · exact hkey ▸ Finset.mem_insert_self _ _
  | slots =>
    cases o with
    | order keys =>
      rw [World.serve] at hserve
      split_ifs at hserve
      obtain ⟨-, rfl⟩ := Prod.mk.inj (Option.some.inj hserve)
      exact ⟨_, rfl, h.same⟩
    | _ => cases hserve
  | touch key =>
    obtain ⟨-, rfl⟩ := Prod.mk.inj (Option.some.inj hserve)
    exact ⟨_, rfl, h.still hi (g i).phase (g i).counted (same_setSlot ⟨rfl, rfl, rfl, rfl⟩) rfl rfl rfl⟩
  | last_used key =>
    obtain ⟨-, rfl⟩ := Prod.mk.inj (Option.some.inj hserve)
    exact ⟨_, rfl, h.same⟩
  | lock_writer key =>
    obtain ⟨-, hkey, -, -⟩ := hallowed
    rw [World.serve] at hserve
    split_ifs at hserve with hfree
    obtain ⟨-, rfl⟩ := Prod.mk.inj (Option.some.inj hserve)
    exact ⟨_, rfl, h.lockWriter hi hkey (.inl hfree) (fun _ => rfl) rfl rfl rfl rfl⟩
  | unlock_writer key =>
    obtain ⟨-, hkey, hwriter, -⟩ := hallowed
    obtain ⟨-, rfl⟩ := Prod.mk.inj (Option.some.inj hserve)
    exact ⟨_, rfl, h.lockWriter hi hkey (.inr hwriter) nofun rfl rfl rfl rfl⟩
  | read key =>
    rw [World.serve] at hserve
    split_ifs at hserve
    obtain ⟨-, rfl⟩ := Prod.mk.inj (Option.some.inj hserve)
    exact ⟨_, rfl, h.still hi (g i).phase (g i).counted (same_setSlot ⟨rfl, rfl, rfl, rfl⟩) rfl rfl rfl⟩
  | unlock_read key =>
    obtain ⟨-, rfl⟩ := Prod.mk.inj (Option.some.inj hserve)
    exact ⟨_, rfl, h.still hi (g i).phase (g i).counted (same_setSlot ⟨rfl, rfl, rfl, rfl⟩) rfl rfl rfl⟩
  | write key =>
    obtain ⟨-, rfl, -, -⟩ := hallowed
    rw [World.serve] at hserve
    split_ifs at hserve with hfree
    obtain ⟨-, rfl⟩ := Prod.mk.inj (Option.some.inj hserve)
    obtain ⟨hnone, hlocks⟩ := h.take hi (Slot.guard_of_free hfree)
    refine ⟨_, ⟨_, hnone, fun hphase => ?_, rfl⟩, hlocks⟩
    rw [hempty hphase]
    rfl
  | try_write key =>
    rw [World.serve] at hserve
    split_ifs at hserve with hfree
    · obtain ⟨rfl, rfl⟩ := Prod.mk.inj (Option.some.inj hserve)
      obtain ⟨hnone, hlocks⟩ := h.take hi (Slot.guard_of_free hfree)
      exact ⟨_, ⟨_, hnone, rfl⟩, hlocks⟩
    · obtain ⟨rfl, rfl⟩ := Prod.mk.inj (Option.some.inj hserve)
      exact ⟨_, rfl, h.same⟩
  | unlock_write key =>
    obtain ⟨-, gd, hgd, hsettled⟩ := hallowed
    obtain ⟨-, rfl⟩ := Prod.mk.inj (Option.some.inj hserve)
    obtain ⟨hguard, hbytes, hcopy⟩ := h.guard i key gd hgd
    refine ⟨_, rfl, h.act hi rfl rfl rfl (fun j hj => ?_) ?_ rfl (h.unknown key) rfl rfl rfl (fun k hk => ?_)
      (h.unreserved i)⟩
    · exact Option.some.inj (hj.symm.trans hguard)
    · rw [Hold.setGuard_guards_self]
      refine ⟨rfl, ?_⟩
      rw [hbytes, hsettled, ← hcopy]
      rfl
    · rw [Hold.setGuard_guards_ite, if_neg hk]
  | copy key =>
    obtain ⟨-, rfl⟩ := Prod.mk.inj (Option.some.inj hserve)
    exact ⟨_, rfl, h.setPhase hi _⟩
  | take key =>
    obtain ⟨-, gd, hgd⟩ := hallowed
    obtain ⟨rfl, rfl⟩ := Prod.mk.inj (Option.some.inj hserve)
    obtain ⟨-, hbytes, hcopy⟩ := h.guard i key gd hgd
    refine ⟨_, ⟨gd, hgd, ?_, rfl⟩, h.change hi hgd _ _ gd.counted rfl rfl rfl (h.unknown key) ?_ rfl rfl rfl
      (h.unreserved i)⟩
    · rw [← hcopy, Option.isSome_map]
    · rw [hbytes]
      rfl
  | push key rows =>
    obtain ⟨-, rfl, -, hsome⟩ := hallowed
    obtain ⟨gd, hgd⟩ := Option.isSome_iff_exists.mp hsome
    obtain ⟨rfl, rfl⟩ := Prod.mk.inj (Option.some.inj hserve)
    obtain ⟨hupdated, hlocks⟩ := h.update hi hgd fun l => l.pushRows serde rows
    exact ⟨_, ⟨gd, hgd, hupdated, rfl⟩, hlocks⟩
  | remove key id =>
    obtain ⟨-, rfl, -, hsome⟩ := hallowed
    obtain ⟨gd, hgd⟩ := Option.isSome_iff_exists.mp hsome
    obtain ⟨rfl, rfl⟩ := Prod.mk.inj (Option.some.inj hserve)
    obtain ⟨hupdated, hlocks⟩ := h.update hi hgd fun l => (l.remove id).1
    exact ⟨_, ⟨gd, hgd, hupdated, rfl⟩, hlocks⟩
  | install key l =>
    obtain ⟨-, rfl, hseen, -, hgd, -⟩ := hallowed
    obtain ⟨-, rfl⟩ := Prod.mk.inj (Option.some.inj hserve)
    refine ⟨_, rfl, h.change hi hgd _ _ l.bytes rfl rfl rfl ?_ rfl rfl rfl rfl fun j => ?_⟩
    · exact fun hnot => (hnot (h.seen i hseen)).elim
    · exact Function.update_apply ..
  | bytes key =>
    obtain ⟨rfl, rfl⟩ := Prod.mk.inj (Option.some.inj hserve)
    exact ⟨_, ⟨rfl, fun gd hgd => (h.guard i key gd hgd).2.1⟩, h.same⟩
  | store_bytes key n =>
    obtain ⟨rfl, hseen, -, gd, hgd, -⟩ := hallowed
    obtain ⟨-, rfl⟩ := Prod.mk.inj (Option.some.inj hserve)
    obtain ⟨-, hbytes, hcopy⟩ := h.guard i _ gd hgd
    refine ⟨_, ⟨gd, hgd, rfl⟩, h.change hi hgd _ _ n rfl rfl rfl ?_ ?_ rfl rfl rfl (h.unreserved i)⟩
    · exact fun hnot => (hnot (h.seen i hseen)).elim
    · rw [hcopy]
      rfl
  | swap_bytes key =>
    obtain ⟨-, gd, hgd, -⟩ := hallowed
    obtain ⟨rfl, rfl⟩ := Prod.mk.inj (Option.some.inj hserve)
    obtain ⟨-, hbytes, hcopy⟩ := h.guard i key gd hgd
    refine ⟨_, ⟨gd, hgd, hbytes, rfl⟩, h.change hi hgd _ _ 0 rfl rfl rfl (fun _ => rfl) ?_ rfl rfl rfl
      (h.unreserved i)⟩
    rw [hcopy]
    rfl
  | total =>
    obtain ⟨-, rfl⟩ := Prod.mk.inj (Option.some.inj hserve)
    exact ⟨_, rfl, h.same⟩
  | try_reserve n =>
    rw [World.serve] at hserve
    split_ifs at hserve
    · obtain ⟨rfl, rfl⟩ := Prod.mk.inj (Option.some.inj hserve)
      exact ⟨_, rfl, h.setCounted hi _ _⟩
    · obtain ⟨rfl, rfl⟩ := Prod.mk.inj (Option.some.inj hserve)
      exact ⟨_, rfl, h.same⟩
  | release n =>
    obtain ⟨-, rfl⟩ := Prod.mk.inj (Option.some.inj hserve)
    exact ⟨_, rfl, h.release hi n _⟩
  | reserved n =>
    obtain ⟨-, rfl⟩ := Prod.mk.inj (Option.some.inj hserve)
    refine ⟨_, rfl, h.quiet hi hsame subset_rfl subset_rfl rfl rfl rfl (h.seen i) fun j => ?_⟩
    exact Function.update_apply ..
  | drop_reservation =>
    obtain ⟨-, rfl⟩ := Prod.mk.inj (Option.some.inj hserve)
    refine ⟨_, rfl, h.quiet hi hsame subset_rfl subset_rfl rfl rfl rfl (h.seen i) fun j => ?_⟩
    exact Function.update_apply ..
  | collection_dim key =>
    cases o with
    | refused e =>
      obtain ⟨rfl, rfl⟩ := Prod.mk.inj (Option.some.inj hserve)
      exact ⟨_, rfl, h.setPhase hi _⟩
    | _ =>
      obtain ⟨rfl, rfl⟩ := Prod.mk.inj (Option.some.inj hserve)
      exact ⟨_, rfl, h.setPhase hi _⟩
  | estimate key dim =>
    cases o with
    | refused e =>
      obtain ⟨-, rfl⟩ := Prod.mk.inj (Option.some.inj hserve)
      exact ⟨_, rfl, h.same⟩
    | _ =>
      obtain ⟨-, rfl⟩ := Prod.mk.inj (Option.some.inj hserve)
      exact ⟨_, rfl, h.same⟩
  | page key last =>
    cases o with
    | refused e =>
      obtain ⟨rfl, rfl⟩ := Prod.mk.inj (Option.some.inj hserve)
      exact ⟨_, rfl, h.setPhase hi _⟩
    | _ =>
      obtain ⟨rfl, rfl⟩ := Prod.mk.inj (Option.some.inj hserve)
      exact ⟨_, rfl, h.setPhase hi _⟩
  | upsert key dim model rows =>
    rcases serve_upsert hserve with ⟨e, rfl, rfl⟩ | ⟨db, -, rfl, rfl⟩
    · exact ⟨_, rfl, h.setPhase hi _⟩
    · exact ⟨_, rfl, h.commit hi key db _⟩
  | delete key id =>
    rcases serve_delete hserve with ⟨e, rfl, rfl⟩ | ⟨rfl, rfl⟩
    · exact ⟨_, rfl, h.setPhase hi _⟩
    · exact ⟨_, rfl, h.commit hi key _ _⟩
  | swap_reembedded key model =>
    rcases serve_swap hserve with ⟨hr, rfl⟩ | ⟨db, n, -, rfl, rfl⟩
    · refine ⟨_, rfl, ?_⟩
      exact h.setPhase hi _
    · exact ⟨_, rfl, h.commit hi key db _⟩

end Locks

end VectorDb.VecCache
