import VynkorPlugins.VectorDb.CacheWorld

/-!
# What the operations of the cache hold

What each operation knows and owns between two of its effects: the locks of its slot, the slots whose
state it may change, its part of the global counter, and how far its load or its write has come.
-/

namespace VectorDb.VecCache

open Async

variable {F : Type}

/-- A slot whose write guard is held: its counter, the size of its copy, and what the global counter has
    for it. -/
structure Guarded where
  bytes : Nat
  copy : Option Nat
  counted : Nat

/-- What a committed transaction has left to do to the copy. -/
inductive Todo (F : Type)
  | push (rows : List (UpsertRow F))
  | remove (id : String)
  | drop

/-- How far a load or a write has come under the writer lock. -/
inductive Phase (F : Type)
  | idle
  | vacant
  | loading (last : Nat) (l : Loaded F)
  | loaded (l : Loaded F)
  | committed (todo : Todo F)

namespace Phase

/-- There is no copy. -/
def empty : Phase F → Prop
  | .vacant | .loading .. | .loaded _ => True
  | _ => False

def settled : Phase F → Prop
  | .committed _ => False
  | _ => True

/-- The copy was dropped. -/
def dropped : Phase F → Phase F
  | .committed .drop => .idle
  | phase => phase

/-- The slot was seen without a copy. -/
def found (phase : Phase F) (l : Option (Loaded F)) : Phase F :=
  match phase, l with
  | .idle, none => .vacant
  | phase, _ => phase

/-- The dimension of the collection was read. -/
def begin (phase : Phase F) (dim : Except String (Option Nat)) : Phase F :=
  match phase, dim with
  | .vacant, .ok (some dim) => .loading 0 (.new dim)
  | phase, _ => phase

/-- A page was read. -/
def page (serde : Serde) (phase : Phase F) (rows : Except String (List (Nat × Row F))) : Phase F :=
  match phase, rows with
  | .loading _ l, .ok rows =>
    match rows.getLast? with
    | none => .loaded l
    | some row => .loading row.1 (rows.foldl (Db.loadRow serde) l)
  | phase, _ => phase

end Phase

structure Hold (F : Type) where
  key : Key
  /-- The slot was made. -/
  seen : Bool
  writer : Bool
  guards : Key → Option Guarded
  /-- What the global counter has for the operation, beside the slots. -/
  counted : Nat
  reservation : Nat
  phase : Phase F

namespace Hold

variable (s : Hold F)

@[simps]
def setGuard (key : Key) (g : Option Guarded) : Hold F :=
  { s with guards := Function.update s.guards key g }

@[simps]
def setCounted (n : Nat) : Hold F :=
  { s with counted := n }

@[simps]
def setReservation (n : Nat) : Hold F :=
  { s with reservation := n }

@[simps]
def setPhase (phase : Phase F) : Hold F :=
  { s with phase }

@[simps]
def setSeen (seen : Bool) : Hold F :=
  { s with seen }

@[simps]
def setWriter (writer : Bool) : Hold F :=
  { s with writer }

/-- No update is in progress. -/
structure Calm : Prop where
  counted : s.counted = s.reservation
  guards : ∀ key g, s.guards key = some g → g.counted = g.bytes

/-- What is given back was taken out of a slot before, or is taken out of the slot or the reservation
    now. -/
def release (n : Nat) : Hold F :=
  if s.reservation + n ≤ s.counted then s.setCounted (s.counted - n)
  else
    match s.guards s.key with
    | some g => s.setGuard s.key (some { g with counted := g.counted - n })
    | none => s.setCounted (s.counted - n)

/-- Something may be given back. -/
def CanRelease (n : Nat) : Prop :=
  (∀ key g, s.guards key = some g → g.counted = g.bytes) ∧
    (s.counted = s.reservation + n ∨
      s.counted = s.reservation ∧
        match s.guards s.key with
        | some g => n ≤ g.bytes
        | none => n ≤ s.counted)

end Hold

/-- What is locked is known to be settled, and what is unlocked has to be. -/
def Guarded.locked (copy : Option Nat) : Guarded where
  bytes := copy.getD 0
  copy
  counted := copy.getD 0

/-- What an operation may do. -/
def Allowed (s : Hold F) : Eff F → Prop
  | .lock_writer key => s.Calm ∧ key = s.key ∧ s.seen = true ∧ s.phase = .idle
  | .unlock_writer key => s.Calm ∧ key = s.key ∧ s.writer = true ∧ s.phase.settled
  | .write key => s.Calm ∧ key = s.key ∧ s.seen = true ∧ s.writer = true
  | .unlock_write key => s.Calm ∧ ∃ g, s.guards key = some g ∧ g.bytes = g.copy.getD 0
  | .take key => s.Calm ∧ ∃ g, s.guards key = some g
  | .push key rows => s.Calm ∧ key = s.key ∧ s.phase = .committed (.push rows) ∧ (s.guards key).isSome
  | .remove key id => s.Calm ∧ key = s.key ∧ s.phase = .committed (.remove id) ∧ (s.guards key).isSome
  | .install key l =>
    s.Calm ∧ key = s.key ∧ s.seen = true ∧ s.phase = .loaded l ∧ s.guards key = some (.locked none) ∧
      s.reservation = l.bytes
  | .store_bytes key n =>
    key = s.key ∧ s.seen = true ∧ (∀ k g, k ≠ key → s.guards k = some g → g.counted = g.bytes) ∧
      ∃ g, s.guards key = some g ∧ s.counted + g.counted = s.reservation + n
  | .swap_bytes key => s.Calm ∧ ∃ g, s.guards key = some g ∧ g.copy = none
  | .release n => s.CanRelease n
  | .reserved n => s.counted = n ∧ ∀ key g, s.guards key = some g → g.counted = g.bytes
  | .page key last => s.Calm ∧ ∀ last' l, s.phase = .loading last' l → key = s.key ∧ last = last'
  | .copy key | .collection_dim key => s.Calm ∧ key = s.key
  | .upsert key dim _ rows =>
    s.Calm ∧ key = s.key ∧ s.writer = true ∧ s.phase = .idle ∧ ∀ r ∈ rows, r.vector.length = dim
  | .delete key _ | .swap_reembedded key _ =>
    s.Calm ∧ key = s.key ∧ s.writer = true ∧ s.phase = .idle
  | _ => s.Calm

/-- What an operation holds after an effect. -/
def Next (serde : Serde) (s : Hold F) : (e : Eff F) → e.Answer → Hold F → Prop
  | .existing_slot key, r, s' => s' = s.setSeen (s.seen || (r && key = s.key))
  | .slot key, _, s' => s' = s.setSeen (s.seen || key = s.key)
  | .lock_writer _, _, s' => s' = s.setWriter true
  | .unlock_writer _, _, s' => s' = (s.setWriter false).setPhase .idle
  | .write key, _, s' =>
    ∃ copy, s.guards key = none ∧ (s.phase.empty → copy = none) ∧
      s' = s.setGuard key (some (.locked copy))
  | .try_write key, r, s' =>
    if r = true then ∃ copy, s.guards key = none ∧ s' = s.setGuard key (some (.locked copy)) else s' = s
  | .unlock_write key, _, s' => s' = s.setGuard key none
  | .copy key, r, s' =>
    s' = s.setPhase (if s.writer = true ∧ key = s.key then s.phase.found r else s.phase)
  | .take key, r, s' => ∃ g, s.guards key = some g ∧ r = g.copy.isSome ∧
    s' = (s.setGuard key (some { g with copy := none })).setPhase
      (if key = s.key then s.phase.dropped else s.phase)
  | .push key _, r, s' | .remove key _, r, s' => ∃ g, s.guards key = some g ∧ r.isSome = g.copy.isSome ∧
    s' = (s.setGuard key (some { g with copy := r })).setPhase .idle
  | .install key l, _, s' =>
    s' = (((s.setGuard key (some (.locked (some l.bytes)))).setCounted 0).setReservation 0).setPhase .idle
  | .bytes key, r, s' => s' = s ∧ ∀ g, s.guards key = some g → r = g.bytes
  | .store_bytes key n, _, s' => ∃ g, s.guards key = some g ∧
    s' = (s.setGuard key (some { g with bytes := n, counted := n })).setCounted s.reservation
  | .swap_bytes key, r, s' => ∃ g, s.guards key = some g ∧ r = g.bytes ∧
    s' = (s.setGuard key (some { g with bytes := 0, counted := 0 })).setCounted (s.counted + r)
  | .try_reserve n, r, s' => s' = s.setCounted (if r = true then s.counted + n else s.counted)
  | .release n, _, s' => s' = s.release n
  | .reserved n, _, s' => s' = s.setReservation n
  | .drop_reservation, _, s' => s' = (s.setCounted 0).setReservation 0
  | .collection_dim _, r, s' => s' = s.setPhase (s.phase.begin r)
  | .page _ _, r, s' => s' = s.setPhase (s.phase.page serde r)
  | .upsert _ _ _ rows, r, s' =>
    s' = s.setPhase (match r with | .ok _ => .committed (.push rows) | .error _ => s.phase)
  | .delete _ id, r, s' =>
    s' = s.setPhase (match r with | .ok _ => .committed (.remove id) | .error _ => s.phase)
  | .swap_reembedded _ _, r, s' =>
    s' = s.setPhase (match r with | .ok (.Done _) => .committed .drop | _ => s.phase)
  | _, _, s' => s' = s

def protocol (serde : Serde) : Protocol (Eff F) Eff.Answer (Hold F) where
  allowed := Allowed
  next := Next serde

section

variable {S : Type} {serde : Serde} {s : Hold F} {key : Key} {c : CacheConfig}

theorem obeys_await {e : Eff F} {Q : Hold F → e.Answer → Prop} (h : Allowed s e)
    (hQ : ∀ r s', Next serde s e r s' → Q s' r) : Obeys (protocol serde) Q s (await e) :=
  ⟨h, hQ⟩

theorem obeys_bind {α : Type} {e : Eff F} {f : e.Answer → Act F α} {Q : Hold F → α → Prop}
    (h : Allowed s e) (hf : ∀ r s', Next serde s e r s' → Obeys (protocol serde) Q s' (f r)) :
    Obeys (protocol serde) Q s (await e >>= f) :=
  ⟨h, hf⟩

theorem obeys_never {α : Type} {Q : Hold F → α → Prop} (h : s.Calm) :
    Obeys (protocol serde) Q s (never : Act F α) :=
  ⟨h, nofun⟩

namespace Hold

theorem setGuard_guards_ite (g : Option Guarded) (key' : Key) :
    (s.setGuard key g).guards key' = if key' = key then g else s.guards key' :=
  Function.update_apply ..

@[simp]
theorem setGuard_guards_self (g : Option Guarded) : (s.setGuard key g).guards key = g :=
  Function.update_self ..

theorem Calm.setGuard (h : s.Calm) {g : Option Guarded}
    (hg : ∀ g', g = some g' → g'.counted = g'.bytes) : (s.setGuard key g).Calm := by
  refine ⟨h.counted, fun key' g' hg' => ?_⟩
  rw [setGuard_guards_ite] at hg'
  split_ifs at hg'
  · exact hg g' hg'
  · exact h.guards key' g' hg'

theorem Calm.locked (h : s.Calm) (copy : Option Nat) :
    (s.setGuard key (some (.locked copy))).Calm := by
  refine h.setGuard fun g hg => ?_
  obtain rfl := Option.some.inj hg
  rfl

theorem Calm.unlocked (h : s.Calm) : (s.setGuard key none).Calm :=
  h.setGuard nofun

theorem Calm.setPhase (h : s.Calm) (phase : Phase F) : (s.setPhase phase).Calm :=
  ⟨h.counted, h.guards⟩

theorem Calm.setSeen (h : s.Calm) (seen : Bool) : (s.setSeen seen).Calm :=
  ⟨h.counted, h.guards⟩

theorem Calm.setWriter (h : s.Calm) (writer : Bool) : (s.setWriter writer).Calm :=
  ⟨h.counted, h.guards⟩

@[simp]
theorem setGuard_setGuard (g g' : Option Guarded) :
    (s.setGuard key g).setGuard key g' = s.setGuard key g' := by
  unfold Hold.setGuard
  simp only [Function.update_idem]

theorem setGuard_self {g : Option Guarded} (h : s.guards key = g) : s.setGuard key g = s := by
  unfold Hold.setGuard
  rw [← h, Function.update_eq_self]

theorem release_surplus {n : Nat} (h : s.counted = s.reservation + n) :
    s.release n = s.setCounted s.reservation := by
  unfold release
  rw [if_pos h.ge, h, Nat.add_sub_cancel]

theorem release_reservation {n : Nat} (hg : s.guards s.key = none) :
    s.release n = s.setCounted (s.counted - n) := by
  unfold release
  rw [hg]
  exact ite_self _

/-- A slot that shrinks gives something back. -/
theorem release_slot {n : Nat} {g : Guarded} (h : s.counted = s.reservation)
    (hg : s.guards s.key = some g) :
    s.release n = s.setGuard s.key (some { g with counted := g.counted - n }) := by
  unfold release
  split_ifs with hn
  · obtain rfl : n = 0 := by omega
    rw [Nat.sub_zero, Nat.sub_zero, setGuard_self hg]
    rfl
  · rw [hg]

/-- What is given back says nothing about the writer lock and the phase. -/
theorem release_same (s : Hold F) (n : Nat) :
    (s.release n).key = s.key ∧ (s.release n).writer = s.writer ∧ (s.release n).phase = s.phase := by
  unfold release
  split
  · exact ⟨rfl, rfl, rfl⟩
  · split
    · exact ⟨rfl, rfl, rfl⟩
    · exact ⟨rfl, rfl, rfl⟩

/-- No guard and no reservation is held. -/
structure Bare (key : Key) (s : Hold F) : Prop where
  key : s.key = key
  seen : s.seen = true
  guards : ∀ k, s.guards k = none
  counted : s.counted = 0
  reservation : s.reservation = 0

theorem Bare.calm (h : s.Bare key) : s.Calm := by
  refine ⟨h.counted.trans h.reservation.symm, fun k g hg => ?_⟩
  rw [h.guards] at hg
  cases hg

theorem Bare.setPhase (h : s.Bare key) (phase : Phase F) : (s.setPhase phase).Bare key :=
  ⟨h.key, h.seen, h.guards, h.counted, h.reservation⟩

theorem Bare.setWriter (h : s.Bare key) (writer : Bool) : (s.setWriter writer).Bare key :=
  ⟨h.key, h.seen, h.guards, h.counted, h.reservation⟩

/-- A guard that was taken and given back. -/
theorem Bare.unlocked (h : s.Bare key) {k : Key} {g : Option Guarded} {phase : Phase F} :
    (((s.setGuard k g).setPhase phase).setGuard k none).Bare key := by
  refine ⟨h.key, h.seen, fun k' => ?_, h.counted, h.reservation⟩
  rw [setGuard_guards_ite, setPhase_guards, setGuard_guards_ite]
  split_ifs
  · rfl
  · exact h.guards k'

/-- An operation that has not begun, or is done. -/
structure Idle (s : Hold F) : Prop where
  guards : ∀ k, s.guards k = none
  counted : s.counted = 0
  reservation : s.reservation = 0
  writer : s.writer = false
  phase : s.phase = .idle

theorem Idle.calm (h : s.Idle) : s.Calm := by
  refine ⟨h.counted.trans h.reservation.symm, fun k g hg => ?_⟩
  rw [h.guards] at hg
  cases hg

theorem Idle.setSeen (h : s.Idle) (seen : Bool) : (s.setSeen seen).Idle :=
  ⟨h.guards, h.counted, h.reservation, h.writer, h.phase⟩

/-- A slot that was made. -/
theorem Idle.bare (h : s.Idle) (hseen : s.seen = true) : s.Bare s.key :=
  ⟨rfl, hseen, h.guards, h.counted, h.reservation⟩

end Hold

/-! ## Accounting -/

theorem obeys_unlock_writer (h : s.Bare s.key) (hwriter : s.writer = true) (hsettled : s.phase.settled) :
    Obeys (protocol serde) (fun s' _ => s'.Idle) s (await (.unlock_writer s.key)) := by
  refine obeys_await ⟨h.calm, rfl, hwriter, hsettled⟩ ?_
  rintro - s' rfl
  exact ⟨h.guards, h.counted, h.reservation, rfl, rfl⟩


theorem obeys_drop_bytes (h : s.Calm) {g : Guarded} (hg : s.guards key = some g) (hcopy : g.copy = none) :
    Obeys (protocol serde) (fun s' _ => s' = s.setGuard key (some (.locked none))) s (drop_bytes key) := by
  refine obeys_bind ⟨h, g, hg, hcopy⟩ ?_
  rintro r s' ⟨g', hg', rfl, rfl⟩
  obtain rfl := Option.some.inj (hg.symm.trans hg')
  have hguards : (s.setGuard key (some { g with bytes := 0, counted := 0 })).Calm := by
    refine h.setGuard fun g' hg' => ?_
    obtain rfl := Option.some.inj hg'
    rfl
  have hsum : s.counted + g.bytes = s.reservation + g.bytes := by rw [h.counted]
  refine obeys_await ⟨hguards.guards, .inl hsum⟩ ?_
  rintro - s' rfl
  rw [Hold.release_surplus hsum]
  unfold Guarded.locked
  rw [Option.getD_none, ← hcopy]
  unfold Hold.setCounted Hold.setGuard
  simp only [h.counted]

/-- An unloaded slot. -/
theorem obeys_unload (h : s.Calm) {copy : Option Nat} (hg : s.guards key = some (.locked copy)) :
    Obeys (protocol serde) (fun s' _ => s' = (s.setGuard key (some (.locked none))).setPhase
      (if key = s.key then s.phase.dropped else s.phase)) s (unload key) := by
  refine obeys_bind ⟨h, _, hg⟩ ?_
  rintro r s' ⟨g, hg', rfl, rfl⟩
  obtain rfl := Option.some.inj (hg.symm.trans hg')
  cases copy with
  | none => rfl
  | some n =>
    have hcalm : (s.setGuard key (some { Guarded.locked (some n) with copy := none })).Calm := by
      refine h.setGuard fun g hg => ?_
      obtain rfl := Option.some.inj hg
      rfl
    refine Obeys.bind (obeys_drop_bytes (hcalm.setPhase _) (Hold.setGuard_guards_self _) rfl) ?_
    rintro s' - rfl
    unfold Hold.setPhase Hold.setGuard
    simp only [Function.update_idem]
    rfl

theorem obeys_victim (h : s.Calm) {keep : Key} {keys : List Key} {best : Option (Key × Int)}
    (hbest : ∀ k ∈ best, k.1 ≠ keep) :
    Obeys (protocol serde) (fun s' v => s' = s ∧ ∀ k ∈ v, k ≠ keep) s (victim keep keys best : Act F _) := by
  induction keys generalizing best with
  | nil =>
    refine ⟨rfl, fun k hk => ?_⟩
    obtain ⟨b, hb, rfl⟩ := Option.map_eq_some_iff.mp hk
    exact hbest b hb
  | cons key keys ih =>
    unfold victim
    split_ifs with hkey
    · exact ih hbest
    · refine obeys_bind h ?_
      rintro b s' ⟨rfl, -⟩
      split_ifs
      · refine obeys_bind h ?_
        rintro t s'' hs
        obtain rfl : s'' = s' := hs
        split_ifs
        · refine ih ?_
          rintro k hk
          obtain rfl := Option.some.inj hk
          exact hkey
        · exact ih hbest
      · exact ih hbest

/-- A slot that is locked, unloaded and unlocked. -/
theorem Hold.evicted {copy : Option Nat} {phase : Phase F} (hnone : s.guards key = none)
    (hphase : phase = s.phase) :
    (((s.setGuard key (some (.locked copy))).setGuard key (some (.locked none))).setPhase phase).setGuard
      key none = s := by
  subst hphase
  unfold Hold.setPhase Hold.setGuard
  simp only [Function.update_idem]
  rw [← hnone, Function.update_eq_self]

theorem obeys_make_room (h : s.Calm) (need fuel : Nat) :
    Obeys (protocol serde) (fun s' _ => s' = s) s (make_room c s.key need fuel) := by
  induction fuel with
  | zero => exact obeys_never h
  | succ fuel ih =>
    unfold make_room
    refine obeys_bind h ?_
    rintro total s' hs
    obtain rfl : s' = s := hs
    split_ifs
    · rfl
    · refine obeys_bind h ?_
      rintro keys s'' hs
      obtain rfl : s'' = s' := hs
      refine Obeys.bind (obeys_victim h nofun) ?_
      rintro s' v ⟨rfl, hv⟩
      cases v with
      | none => rfl
      | some v =>
        refine obeys_bind h ?_
        rintro locked s'' hs
        cases locked with
        | false => exact hs
        | true =>
          obtain ⟨copy, hnone, rfl⟩ := hs
          refine Obeys.bind (obeys_unload (h.locked copy) (Hold.setGuard_guards_self _)) ?_
          rintro s'' - rfl
          refine obeys_bind ⟨((h.locked copy).locked none).setPhase _, _, Hold.setGuard_guards_self _, rfl⟩ ?_
          rintro - s'' rfl
          rw [Hold.evicted hnone (by rw [Hold.setGuard_key, if_neg (hv v rfl), Hold.setGuard_phase])]
          exact ih

theorem obeys_reserve_with_eviction (h : s.Calm) (n fuel : Nat) :
    Obeys (protocol serde)
      (fun s' r => s' = s.setCounted (if r = true then s.counted + n else s.counted)) s
      (reserve_with_eviction c s.key n fuel) := by
  refine obeys_bind h ?_
  rintro r s' rfl
  cases r with
  | true => rfl
  | false =>
    refine Obeys.bind (obeys_make_room h n fuel) ?_
    rintro s' - rfl
    exact obeys_await h fun r s'' hs => hs

/-- A slot with a copy of another size: it is accounted, or nothing has happened. -/
theorem obeys_account (h : s.Calm) (hseen : s.seen = true) {bytes new fuel : Nat}
    (hg : s.guards s.key = some { bytes, copy := some new, counted := bytes }) :
    Obeys (protocol serde)
      (fun s' r => s' = if r = true then s.setGuard s.key (some (.locked (some new))) else s) s
      (account c s.key new fuel) := by
  have hother : ∀ k g, k ≠ s.key → s.guards k = some g → g.counted = g.bytes := fun k g _ => h.guards k g
  refine obeys_bind h ?_
  rintro old s' ⟨rfl, hold⟩
  obtain rfl := hold _ hg
  split_ifs with hgrow
  · refine Obeys.bind (obeys_reserve_with_eviction h _ _) ?_
    rintro s'' room rfl
    cases room with
    | false => rfl
    | true =>
      refine obeys_bind ⟨rfl, hseen, hother, _, hg, ?_⟩ ?_
      · simp only [Hold.setCounted_counted, Hold.setCounted_reservation, if_true, h.counted]
        omega
      · rintro - s'' ⟨g, hg', rfl⟩
        obtain rfl := Option.some.inj (hg.symm.trans hg')
        have hcounted : s'.counted = s'.reservation := h.counted
        unfold Hold.setCounted Hold.setGuard Guarded.locked
        simp [hcounted]
  · have hle : new ≤ old := Nat.le_of_not_lt hgrow
    refine obeys_bind ⟨h.guards, .inr ⟨h.counted, ?_⟩⟩ ?_
    · rw [hg]
      exact Nat.sub_le _ _
    · rintro - s'' rfl
      rw [Hold.release_slot h.counted hg]
      refine obeys_bind ⟨rfl, hseen, fun k g hk hg' => ?_, _, Hold.setGuard_guards_self _, ?_⟩ ?_
      · rw [Hold.setGuard_guards_ite, if_neg hk] at hg'
        exact h.guards k g hg'
      · simp only [Hold.setGuard_counted, Hold.setGuard_reservation, h.counted]
        omega
      · rintro - s'' ⟨g, hg', rfl⟩
        obtain rfl := Option.some.inj ((Hold.setGuard_guards_self _).symm.trans hg')
        have hcounted : s'.counted = s'.reservation := h.counted
        unfold Hold.setCounted Hold.setGuard Guarded.locked
        simp [hcounted]

/-- A slot that was updated is accounted or unloaded. -/
theorem obeys_settle (h : s.Calm) (hseen : s.seen = true) (hphase : s.phase = .idle) {bytes fuel : Nat}
    {updated : Option Nat} (hg : s.guards s.key = some { bytes, copy := updated, counted := bytes })
    (hnone : updated = none → bytes = 0) :
    Obeys (protocol serde) (fun s' _ => ∃ copy, s' = s.setGuard s.key (some (.locked copy))) s
      (settle c s.key fuel updated) := by
  cases updated with
  | none =>
    obtain rfl := hnone rfl
    exact ⟨none, (Hold.setGuard_self hg).symm⟩
  | some new =>
    refine Obeys.bind (obeys_account h hseen hg) ?_
    rintro s' accounted hs
    cases accounted with
    | true => exact ⟨some new, hs⟩
    | false =>
      obtain rfl : s' = s := hs
      refine obeys_bind ⟨h, _, hg⟩ ?_
      rintro r s'' ⟨g, hg', -, rfl⟩
      obtain rfl := Option.some.inj (hg.symm.trans hg')
      have hcalm : (s'.setGuard s'.key (some { bytes, copy := none, counted := bytes })).Calm := by
        refine h.setGuard fun g hg => ?_
        obtain rfl := Option.some.inj hg
        rfl
      rw [if_pos rfl]
      refine (obeys_drop_bytes (hcalm.setPhase s'.phase.dropped) (Hold.setGuard_guards_self _) rfl).mono ?_
      rintro s'' - rfl
      refine ⟨none, ?_⟩
      unfold Hold.setPhase Hold.setGuard
      simp [hphase, Phase.dropped]

/-! ## Evicting -/

theorem obeys_drop_copy (h : s.Calm) (hseen : s.seen = true) (hwriter : s.writer = true) :
    Obeys (protocol serde) (fun s' _ => s' = s.setPhase s.phase.dropped) s (drop_copy s.key) := by
  refine obeys_bind ⟨h, rfl, hseen, hwriter⟩ ?_
  rintro - s' ⟨copy, hnone, -, rfl⟩
  refine Obeys.bind (obeys_unload (h.locked copy) (Hold.setGuard_guards_self _)) ?_
  rintro s' - rfl
  refine obeys_await ⟨((h.locked copy).locked none).setPhase _, _, Hold.setGuard_guards_self _, rfl⟩ ?_
  rintro - s' rfl
  have hkey : s.key = (s.setGuard s.key (some (.locked copy))).key := rfl
  rw [if_pos hkey]
  unfold Hold.setPhase Hold.setGuard
  simp only [Function.update_idem]
  rw [← hnone, Function.update_eq_self]

theorem obeys_invalidate (h : s.Idle) :
    Obeys (protocol serde) (fun s' _ => s'.Idle) s (invalidate s.key) := by
  have hsettled : s.phase.settled := h.phase ▸ trivial
  have hseen : (s.seen || decide (s.key = s.key)) = true := by simp
  refine obeys_bind h.calm ?_
  rintro - s' rfl
  have h1 := (h.setSeen (s.seen || decide (s.key = s.key))).bare hseen
  refine obeys_bind h1.calm ?_
  rintro dropped s' hs
  obtain rfl := hs
  split_ifs
  · exact h.setSeen _
  · refine obeys_bind ⟨h1.calm, rfl, hseen, h.phase⟩ ?_
    rintro - s' rfl
    have h2 := h1.setWriter true
    refine obeys_bind h2.calm ?_
    rintro dropped s' hs
    obtain rfl := hs
    split_ifs
    · exact obeys_unlock_writer h2 rfl hsettled
    · refine Obeys.bind (obeys_drop_copy h2.calm hseen rfl) ?_
      rintro s' - rfl
      refine obeys_unlock_writer (h2.setPhase _) rfl ?_
      simp [h.phase, Phase.dropped, Phase.settled]

theorem obeys_evict_if_idle (h : s.Calm) (hphase : s.phase = .idle) (now : Int) (key : Key) :
    Obeys (protocol serde) (fun s' _ => s' = s) s (evict_if_idle c now key) := by
  refine obeys_bind h ?_
  rintro b s' ⟨rfl, -⟩
  split_ifs
  · rfl
  · refine obeys_bind h ?_
    rintro t s'' hs
    obtain rfl : s'' = s' := hs
    split_ifs
    · refine obeys_bind h ?_
      rintro locked s' hs
      cases locked with
      | false => exact hs
      | true =>
        obtain ⟨copy, hnone, rfl⟩ := hs
        refine Obeys.bind (obeys_unload (h.locked copy) (Hold.setGuard_guards_self _)) ?_
        rintro s' - rfl
        refine obeys_bind ⟨((h.locked copy).locked none).setPhase _, _, Hold.setGuard_guards_self _, rfl⟩ ?_
        rintro - s' rfl
        refine Hold.evicted hnone ?_
        rw [Hold.setGuard_phase, hphase]
        exact ite_self _
    · rfl

theorem obeys_evict_idle (h : s.Calm) (hphase : s.phase = .idle) (now : Int) :
    Obeys (protocol serde) (fun s' _ => s' = s) s (evict_idle c now) := by
  refine obeys_bind h ?_
  rintro keys s' hs
  obtain rfl : s' = s := hs
  induction keys with
  | nil => rfl
  | cons key keys ih =>
    refine Obeys.bind (obeys_evict_if_idle h hphase now key) ?_
    rintro s'' n rfl
    refine Obeys.bind ih ?_
    rintro s' m rfl
    rfl

/-! ## Writing -/

/-- Where there is a slot, it is known. -/
theorem obeys_slot_if_collection_exists (h : s.Calm) (hphase : s.phase = .idle) :
    Obeys (protocol serde) (fun s' r => ∃ seen, s' = s.setSeen seen ∧ (r = .ok true → seen = true)) s
      (slot_if_collection_exists s.key) := by
  refine obeys_bind h ?_
  rintro existing s' rfl
  cases existing with
  | true => exact ⟨true, by simp, fun _ => rfl⟩
  | false =>
    have hsame : s.setSeen (s.seen || (false && decide (s.key = s.key))) = s := by
      rw [Bool.false_and, Bool.or_false]
      rfl
    rw [hsame]
    refine obeys_bind ⟨h, rfl⟩ ?_
    rintro dim s' rfl
    have hbegin : s.setPhase (s.phase.begin dim) = s := by
      rw [hphase]
      exact congrArg s.setPhase hphase.symm
    rw [hbegin]
    cases dim with
    | error e => exact ⟨s.seen, rfl, nofun⟩
    | ok dim =>
      cases dim with
      | none => exact ⟨s.seen, rfl, nofun⟩
      | some dim =>
        refine obeys_bind h ?_
        rintro - s' rfl
        exact ⟨true, by simp, fun _ => rfl⟩

/-- What follows the update of a copy that was locked. -/
theorem obeys_settle_updated (h : s.Calm) (hseen : s.seen = true) {copy updated : Option Nat} {fuel : Nat}
    (hsome : updated.isSome = copy.isSome) :
    Obeys (protocol serde) (fun s' _ => ∃ copy, s' = (s.setGuard s.key (some (.locked copy))).setPhase .idle)
      ((s.setGuard s.key (some { Guarded.locked copy with copy := updated })).setPhase .idle)
      (settle c s.key fuel updated) := by
  have hcalm : (s.setGuard s.key (some { Guarded.locked copy with copy := updated })).Calm := by
    refine h.setGuard fun g hg => ?_
    obtain rfl := Option.some.inj hg
    rfl
  refine Obeys.mono (obeys_settle (hcalm.setPhase .idle) hseen rfl (Hold.setGuard_guards_self _) ?_) ?_
  · rintro rfl
    obtain rfl : copy = none := by simpa using hsome.symm
    rfl
  · rintro s' - ⟨copy', rfl⟩
    refine ⟨copy', ?_⟩
    unfold Hold.setPhase Hold.setGuard
    simp only [Function.update_idem]

theorem obeys_upsert_inner (h : s.Idle) {dim fuel : Nat} {model : Option String}
    {rows : List (UpsertRow F)} (hrows : ∀ r ∈ rows, r.vector.length = dim) :
    Obeys (protocol serde) (fun s' _ => s'.Idle) s (upsert_inner c s.key dim model rows fuel) := by
  have hsettled : s.phase.settled := h.phase ▸ trivial
  have hseen : (s.seen || decide (s.key = s.key)) = true := by simp
  refine obeys_bind h.calm ?_
  rintro - s' rfl
  have h1 := (h.setSeen (s.seen || decide (s.key = s.key))).bare hseen
  refine obeys_bind ⟨h1.calm, rfl, hseen, h.phase⟩ ?_
  rintro - s' rfl
  have h2 := h1.setWriter true
  refine obeys_bind ⟨h2.calm, rfl, rfl, h.phase, hrows⟩ ?_
  rintro r s' rfl
  cases r with
  | error e => exact Obeys.bind (obeys_unlock_writer (h2.setPhase _) rfl hsettled) fun _ _ h => h
  | ok u =>
    have h3 := h2.setPhase (.committed (.push rows))
    refine obeys_bind ⟨h3.calm, rfl, hseen, rfl⟩ ?_
    rintro - s' ⟨copy, -, -, rfl⟩
    refine obeys_bind ⟨h3.calm.locked copy, rfl, rfl, ?_⟩ ?_
    · rw [Hold.setGuard_guards_self]
      rfl
    rintro updated s' ⟨g, hg, hsome, rfl⟩
    obtain rfl := Option.some.inj ((Hold.setGuard_guards_self _).symm.trans hg)
    rw [Hold.setGuard_setGuard]
    refine Obeys.bind (obeys_settle_updated h3.calm hseen hsome) ?_
    rintro s' - ⟨copy', rfl⟩
    have h4 := (@Hold.Calm.locked F _ s.key h3.calm copy').setPhase .idle
    refine obeys_bind h4 ?_
    rintro touched s' hs
    obtain rfl := hs
    refine obeys_bind ⟨h4, _, Hold.setGuard_guards_self _, rfl⟩ ?_
    rintro - s' rfl
    exact Obeys.bind (obeys_unlock_writer h3.unlocked rfl trivial) fun _ _ h => h

theorem obeys_delete_inner (h : s.Idle) {id : String} {fuel : Nat} :
    Obeys (protocol serde) (fun s' _ => s'.Idle) s (delete_inner c s.key id fuel) := by
  have hsettled : s.phase.settled := h.phase ▸ trivial
  refine Obeys.bind (obeys_slot_if_collection_exists h.calm h.phase) ?_
  rintro s' r ⟨seen, rfl, hseen⟩
  match r, hseen with
  | .error e, _ => exact h.setSeen seen
  | .ok false, _ => exact h.setSeen seen
  | .ok true, hseen =>
    have h1 := (h.setSeen seen).bare (hseen rfl)
    refine obeys_bind ⟨h1.calm, rfl, hseen rfl, h.phase⟩ ?_
    rintro - s' rfl
    have h2 := h1.setWriter true
    refine obeys_bind ⟨h2.calm, rfl, rfl, h.phase⟩ ?_
    rintro r s' rfl
    cases r with
    | error e => exact Obeys.bind (obeys_unlock_writer (h2.setPhase _) rfl hsettled) fun _ _ h => h
    | ok deleted =>
      have h3 := h2.setPhase (.committed (.remove id))
      refine obeys_bind ⟨h3.calm, rfl, hseen rfl, rfl⟩ ?_
      rintro - s' ⟨copy, -, -, rfl⟩
      refine obeys_bind ⟨h3.calm.locked copy, rfl, rfl, ?_⟩ ?_
      · rw [Hold.setGuard_guards_self]
        rfl
      rintro updated s' ⟨g, hg, hsome, rfl⟩
      obtain rfl := Option.some.inj ((Hold.setGuard_guards_self _).symm.trans hg)
      rw [Hold.setGuard_setGuard]
      refine Obeys.bind (obeys_settle_updated h3.calm (hseen rfl) hsome) ?_
      rintro s' - ⟨copy', rfl⟩
      have h4 := (@Hold.Calm.locked F _ s.key h3.calm copy').setPhase .idle
      refine obeys_bind ⟨h4, _, Hold.setGuard_guards_self _, rfl⟩ ?_
      rintro - s' rfl
      exact Obeys.bind (obeys_unlock_writer h3.unlocked rfl trivial) fun _ _ h => h

theorem obeys_swap_inner (h : s.Idle) {model : String} :
    Obeys (protocol serde) (fun s' _ => s'.Idle) s (swap_inner s.key model) := by
  have hsettled : s.phase.settled := h.phase ▸ trivial
  have hseen : (s.seen || decide (s.key = s.key)) = true := by simp
  refine obeys_bind h.calm ?_
  rintro - s' rfl
  have h1 := (h.setSeen (s.seen || decide (s.key = s.key))).bare hseen
  refine obeys_bind ⟨h1.calm, rfl, hseen, h.phase⟩ ?_
  rintro - s' rfl
  have h2 := h1.setWriter true
  refine obeys_bind ⟨h2.calm, rfl, rfl, h.phase⟩ ?_
  rintro r s' rfl
  match r with
  | .error e => exact Obeys.bind (obeys_unlock_writer (h2.setPhase _) rfl hsettled) fun _ _ h => h
  | .ok (.Stale n) => exact Obeys.bind (obeys_unlock_writer (h2.setPhase _) rfl hsettled) fun _ _ h => h
  | .ok (.Done n) =>
    have h3 := h2.setPhase (.committed .drop)
    refine Obeys.bind (obeys_drop_copy h3.calm hseen rfl) ?_
    rintro s' - rfl
    exact Obeys.bind (obeys_unlock_writer (h3.setPhase _) rfl trivial) fun _ _ h => h

/-! ## Searching -/

namespace Hold

/-- The loader, when it has only the writer lock. -/
structure Loader (key : Key) (s : Hold F) : Prop where
  bare : s.Bare key
  writer : s.writer = true
  settled : s.phase.settled

/-- The loader, with a reservation. -/
structure Reserving (key : Key) (s : Hold F) : Prop where
  key : s.key = key
  seen : s.seen = true
  guards : ∀ k, s.guards k = none
  counted : s.counted = s.reservation
  writer : s.writer = true
  settled : s.phase.settled

theorem Reserving.calm (h : s.Reserving key) : s.Calm := by
  refine ⟨h.counted, fun k g hg => ?_⟩
  rw [h.guards] at hg
  cases hg

end Hold

/-- Pages that are read without the writer lock. -/
theorem obeys_pages {σ : Type} {body : σ → Nat × Row F → σ} (h : s.Calm) (hphase : s.phase = .idle)
    (fuel last : Nat) (a : σ) :
    Obeys (protocol serde) (fun s' _ => s' = s) s (pages key body fuel last a) := by
  induction fuel generalizing last a with
  | zero => exact obeys_never h
  | succ fuel ih =>
    refine obeys_bind h ?_
    rintro dropped s' hs
    obtain rfl : s' = s := hs
    split_ifs
    · rfl
    · refine obeys_bind ⟨h, ?_⟩ ?_
      · rw [hphase]
        exact nofun
      rintro rows s'' rfl
      have hpage : s'.setPhase (s'.phase.page serde rows) = s' := by
        rw [hphase]
        exact congrArg s'.setPhase hphase.symm
      rw [hpage]
      cases rows with
      | error e => rfl
      | ok rows =>
        dsimp only
        split
        · rfl
        · exact ih _ _

/-- A load comes to all the pages, or stops before. -/
theorem obeys_load (h : s.Calm) (fuel last : Nat) (l : Loaded F) :
    Obeys (protocol serde) (fun s' r => ∃ phase : Phase F, s' = s.setPhase phase ∧ phase.settled ∧
      ∀ l, r = some (.ok l) → phase = .loaded l) (s.setPhase (.loading last l))
      (pages s.key (Db.loadRow serde) fuel last l) := by
  induction fuel generalizing last l with
  | zero => exact obeys_never (h.setPhase _)
  | succ fuel ih =>
    refine obeys_bind (h.setPhase _) ?_
    rintro dropped s' hs
    obtain rfl := hs
    split_ifs
    · exact ⟨_, rfl, trivial, nofun⟩
    · refine obeys_bind ⟨h.setPhase _, ?_⟩ ?_
      · rintro last' l' hphase
        obtain ⟨rfl, -⟩ := Phase.loading.inj hphase
        exact ⟨rfl, rfl⟩
      rintro rows s' rfl
      cases rows with
      | error e => exact ⟨_, rfl, trivial, nofun⟩
      | ok rows =>
        have hpage : (s.setPhase (.loading last l)).setPhase
            ((s.setPhase (.loading last l)).phase.page serde (.ok rows)) =
            s.setPhase (match rows.getLast? with
              | none => .loaded l
              | some row => .loading row.1 (rows.foldl (Db.loadRow serde) l)) := rfl
        rw [hpage]
        dsimp only
        cases rows.getLast? with
        | none =>
          refine ⟨_, rfl, trivial, fun l' hl => ?_⟩
          rw [Except.ok.inj (Option.some.inj hl)]
        | some row => exact ih _ _

/-- The reservation becomes that of the loaded copy. -/
theorem obeys_adjust (h : s.Calm) (hnone : s.guards s.key = none) (actual fuel : Nat) :
    Obeys (protocol serde) (fun s' r => if r = true then s' = (s.setCounted actual).setReservation actual
      else s' = s) s (adjust s.key c s.reservation actual fuel) := by
  unfold adjust
  split_ifs with hlow hhigh
  · refine Obeys.bind (obeys_reserve_with_eviction h _ _) ?_
    rintro s' room hs
    cases room with
    | false => exact hs
    | true =>
      obtain rfl := hs
      have hsum : s.counted + (actual - s.reservation) = actual := by
        rw [h.counted]
        omega
      rw [if_pos rfl, hsum]
      exact obeys_bind ⟨rfl, h.guards⟩ fun _ _ hs => hs
  · refine obeys_bind ⟨h.guards, .inr ⟨h.counted, ?_⟩⟩ ?_
    · rw [hnone, h.counted]
      exact Nat.sub_le _ _
    rintro - s' rfl
    have hcounted := h.counted
    have hleft : s.counted - (s.reservation - actual) = actual := by omega
    rw [Hold.release_reservation hnone, hleft]
    exact obeys_bind ⟨rfl, h.guards⟩ fun _ _ hs => hs
  · have hactual : actual = s.reservation := by omega
    subst hactual
    rw [Async.pure_eq, obeys_done, if_pos rfl]
    have hself : s = (s.setCounted s.counted).setReservation s.reservation := rfl
    rwa [h.counted] at hself

variable {S : Type} {r : Query F}

theorem obeys_drop_reservation (h : s.Reserving key) :
    Obeys (protocol serde) (fun s' _ => s'.Loader key) s (await .drop_reservation) := by
  refine obeys_await h.calm ?_
  rintro - s' rfl
  exact ⟨⟨h.key, h.seen, h.guards, rfl, rfl⟩, h.writer, h.settled⟩

/-- The copy is installed in place of the reservation. -/
theorem obeys_install (h : s.Reserving s.key) {l : Loaded F} (hphase : s.phase = .loaded l)
    (hreservation : s.reservation = l.bytes) :
    Obeys (protocol serde) (fun s' _ => s'.Loader s.key) s (do
      await (.write s.key)
      await (.install s.key l)
      await (.unlock_write s.key)
      return (.again : Loading S)) := by
  refine obeys_bind ⟨h.calm, rfl, h.seen, h.writer⟩ ?_
  rintro - s' ⟨copy, -, hnone, rfl⟩
  obtain rfl : copy = none := hnone (by rw [hphase]; trivial)
  refine obeys_bind ⟨h.calm.locked none, rfl, h.seen, hphase, Hold.setGuard_guards_self _, hreservation⟩ ?_
  rintro - s' rfl
  refine obeys_bind ⟨⟨rfl, fun k g hg => ?_⟩, .locked (some l.bytes), Hold.setGuard_guards_self _, rfl⟩ ?_
  · exact ((h.calm.locked none).locked _).guards k g hg
  rintro - s' rfl
  rw [Async.pure_eq, obeys_done]
  refine ⟨⟨by simp, by simp [h.seen], fun k => ?_, by simp, by simp⟩, by simp [h.writer], trivial⟩
  by_cases hk : k = s.key
  · subst hk
    exact Hold.setGuard_guards_self _
  · simp [hk, h.guards]

theorem obeys_load_reserved (h : s.Loader s.key) {dim est fuel : Nat} :
    Obeys (protocol serde) (fun s' _ => s'.Loader s.key)
      (((s.setCounted est).setReservation est).setPhase (.loading 0 (.new dim)))
      (load_reserved serde s.key c dim est fuel : Act F (Loading S)) := by
  have hreserving : ∀ (n : Nat) (phase : Phase F), phase.settled →
      (((s.setCounted n).setReservation n).setPhase phase).Reserving s.key :=
    fun n phase hphase => ⟨rfl, h.bare.seen, h.bare.guards, rfl, h.writer, hphase⟩
  have hcalm : ((s.setCounted est).setReservation est).Calm := ⟨rfl, h.bare.calm.guards⟩
  refine Obeys.bind (obeys_load hcalm fuel 0 _) ?_
  rintro s' loaded ⟨phase, rfl, hphase, hloaded⟩
  match loaded, hloaded with
  | none, _ =>
    exact Obeys.bind (obeys_drop_reservation (hreserving est phase hphase)) fun _ _ h => h
  | some (.error e), _ =>
    exact Obeys.bind (obeys_drop_reservation (hreserving est phase hphase)) fun _ _ h => h
  | some (.ok l), hloaded =>
    obtain rfl := hloaded l rfl
    refine Obeys.bind (obeys_adjust (hcalm.setPhase _) (h.bare.guards _) _ _) ?_
    rintro s' enough hs
    cases enough with
    | false =>
      obtain rfl := hs
      exact Obeys.bind (obeys_drop_reservation (hreserving est _ hphase)) fun _ _ h => h
    | true =>
      obtain rfl := hs
      have hreserving := hreserving l.bytes (.loaded l) hphase
      refine obeys_bind hreserving.calm ?_
      rintro dropped s' hs
      obtain rfl := hs
      split_ifs
      · exact Obeys.bind (obeys_drop_reservation hreserving) fun _ _ h => h
      · exact obeys_install hreserving rfl rfl

theorem obeys_load_estimated (h : s.Loader s.key) {dim fuel : Nat} (hphase : s.phase = .loading 0 (.new dim)) :
    Obeys (protocol serde) (fun s' _ => s'.Loader s.key) s
      (load_estimated serde s.key c dim fuel : Act F (Loading S)) := by
  refine obeys_bind h.bare.calm ?_
  rintro dropped s' hs
  obtain rfl : s' = s := hs
  split_ifs
  · exact h
  · refine obeys_bind h.bare.calm ?_
    rintro est s'' hs
    obtain rfl : s'' = s' := hs
    cases est with
    | error e => exact h
    | ok est =>
      dsimp only
      split_ifs
      · exact h
      · refine Obeys.bind (obeys_reserve_with_eviction h.bare.calm _ _) ?_
        rintro s' room rfl
        cases room with
        | false => exact h
        | true =>
          refine obeys_bind ⟨?_, h.bare.calm.guards⟩ ?_
          · simp [h.bare.counted]
          · rintro - s' rfl
            have hstart : (s''.setCounted (if true = true then s''.counted + est else s''.counted)).setReservation
                est = ((s''.setCounted est).setReservation est).setPhase (.loading 0 (.new dim)) := by
              unfold Hold.setCounted Hold.setReservation Hold.setPhase
              simp [h.bare.counted, hphase]
            rw [hstart]
            exact obeys_load_reserved h

theorem obeys_become_loader (h : s.Loader s.key) (hphase : s.phase = .idle) {fuel : Nat} :
    Obeys (protocol serde) (fun s' _ => s'.Loader s.key) s
      (become_loader serde s.key r c fuel : Act F (Loading S)) := by
  have hcalm := h.bare.calm
  refine obeys_bind hcalm ?_
  rintro dropped s' hs
  obtain rfl : s' = s := hs
  split_ifs
  · exact h
  · refine obeys_bind (e := .read s'.key) hcalm ?_
    rintro read s'' hs
    obtain rfl : s'' = s' := hs
    refine obeys_bind ⟨hcalm, rfl⟩ ?_
    rintro l s' rfl
    rw [if_pos ⟨h.writer, rfl⟩, hphase]
    refine obeys_bind (e := .unlock_read s''.key) (hcalm.setPhase _) ?_
    rintro unlocked s' hs
    obtain rfl := hs
    have hloader : ∀ phase : Phase F, phase.settled → (s''.setPhase phase).Loader s''.key :=
      fun phase hphase => ⟨h.bare.setPhase phase, h.writer, hphase⟩
    cases l with
    | some l => exact hloader _ trivial
    | none =>
      refine obeys_bind (hcalm.setPhase .vacant) ?_
      rintro dropped s' hs
      obtain rfl := hs
      split_ifs
      · exact hloader _ trivial
      · refine obeys_bind ⟨hcalm.setPhase .vacant, rfl⟩ ?_
        rintro dim s' rfl
        match dim with
        | .error e => exact hloader _ trivial
        | .ok none => exact hloader _ trivial
        | .ok (some dim) =>
          dsimp only
          split_ifs
          · exact hloader _ trivial
          · exact obeys_load_estimated (s := s''.setPhase (.loading 0 (.new dim))) (hloader _ trivial) rfl

theorem obeys_query_copy [LinearOrder S] {score : List F → List F → S} (h : s.Calm) (l : Loaded F) :
    Obeys (protocol serde) (fun s' _ => s' = s) s (query_copy score key r l) := by
  unfold query_copy
  split_ifs
  · exact obeys_bind h fun _ _ hs => hs
  · refine obeys_bind h ?_
    rintro dropped s' hs
    obtain rfl : s' = s := hs
    refine obeys_bind (e := .unlock_read key) h ?_
    rintro unlocked s'' hs
    split_ifs
    · exact hs
    · exact hs
  · exact obeys_bind h fun _ _ hs => hs

theorem obeys_query_loop [LinearOrder S] {score : List F → List F → S} {fuel : Nat} (h : s.Idle)
    (hseen : s.seen = true) :
    Obeys (protocol serde) (fun s' _ => s'.Idle) s (query_loop serde score s.key r c fuel) := by
  induction fuel generalizing s with
  | zero => exact obeys_never h.calm
  | succ fuel ih =>
    have hcalm := h.calm
    refine obeys_bind hcalm ?_
    rintro dropped s' hs
    obtain rfl : s' = s := hs
    split_ifs
    · exact h
    · refine obeys_bind (e := .read s'.key) hcalm ?_
      rintro read s'' hs
      obtain rfl : s'' = s' := hs
      refine obeys_bind ⟨hcalm, rfl⟩ ?_
      rintro l s' rfl
      have hsame : s''.setPhase (if s''.writer = true ∧ s''.key = s''.key then s''.phase.found l
          else s''.phase) = s'' := by
        rw [h.writer, if_neg (by simp)]
        rfl
      rw [hsame]
      cases l with
      | some l =>
        refine (obeys_query_copy hcalm l).mono ?_
        rintro s' - rfl
        exact h
      | none =>
        refine obeys_bind (e := .unlock_read s''.key) hcalm ?_
        rintro unlocked s' hs
        obtain rfl : s' = s'' := hs
        refine obeys_bind hcalm ?_
        rintro dropped s'' hs
        obtain rfl : s'' = s' := hs
        split_ifs
        · exact h
        · refine obeys_bind ⟨hcalm, rfl, hseen, h.phase⟩ ?_
          rintro - s' rfl
          have hloader : (s''.setWriter true).Loader s''.key :=
            ⟨(h.bare hseen).setWriter true, rfl, h.phase ▸ trivial⟩
          refine Obeys.bind (obeys_become_loader (s := s''.setWriter true) hloader h.phase) ?_
          rintro s' loading hloader
          have hkey : s''.key = s'.key := hloader.bare.key.symm
          rw [hkey]
          have hbare : s'.Bare s'.key := hkey ▸ hloader.bare
          refine obeys_bind ⟨hbare.calm, rfl, hloader.writer, hloader.settled⟩ ?_
          rintro - s1 rfl
          have hidle : ((s'.setWriter false).setPhase .idle).Idle :=
            ⟨hbare.guards, hbare.counted, hbare.reservation, rfl, rfl⟩
          cases loading with
          | again => exact ih hidle hbare.seen
          | scan =>
            refine Obeys.bind (obeys_pages hidle.calm rfl _ _ _) ?_
            rintro s2 found rfl
            match found with
            | none => exact hidle
            | some (.error e) => exact hidle
            | some (.ok a) => exact hidle
          | stop hits => exact hidle

theorem obeys_query [LinearOrder S] {score : List F → List F → S} {fuel : Nat} (h : s.Idle) :
    Obeys (protocol serde) (fun s' _ => s'.Idle) s (VecCache.query serde score s.key r c fuel) := by
  refine obeys_bind h.calm ?_
  rintro dropped s' hs
  obtain rfl : s' = s := hs
  split_ifs
  · exact h
  · refine Obeys.bind (obeys_slot_if_collection_exists h.calm h.phase) ?_
    rintro s'' found ⟨seen, rfl, hseen⟩
    have hidle := h.setSeen seen
    match found, hseen with
    | .error e, _ => exact hidle
    | .ok false, _ => exact hidle
    | .ok true, hseen =>
      refine obeys_bind (e := .touch s'.key) hidle.calm ?_
      rintro touched s'' hs
      obtain rfl := hs
      exact obeys_query_loop (s := s'.setSeen seen) hidle (hseen rfl)

end

/-! ## Operations -/

def Op.key : Op F → Key
  | .upsert key .. | .delete key _ | .query key _ | .invalidate key | .swap_reembedded key _ => key
  | .evict_idle _ => ("", "")

/-- Nothing is held yet. -/
def Hold.start (key : Key) : Hold F where
  key
  seen := false
  writer := false
  guards := fun _ => none
  counted := 0
  reservation := 0
  phase := .idle

theorem obeys_task {S : Type} [LinearOrder S] (E : Env F S) (fuel : Nat) (op : Op F) :
    Obeys (protocol E.serde) (fun s' _ => s'.Idle) (.start op.key) (op.task E fuel) := by
  have hidle : ∀ key, (Hold.start key : Hold F).Idle := fun key => ⟨fun _ => rfl, rfl, rfl, rfl, rfl⟩
  cases op with
  | upsert key dim model rows checked =>
    exact Obeys.bind (obeys_upsert_inner (s := .start key) (hidle key) checked) fun _ _ h => h
  | delete key id => exact Obeys.bind (obeys_delete_inner (s := .start key) (hidle key)) fun _ _ h => h
  | query key r => exact Obeys.bind (obeys_query (s := .start key) (hidle key)) fun _ _ h => h
  | evict_idle now =>
    refine Obeys.bind (obeys_evict_idle (hidle _).calm rfl now) ?_
    rintro s' n rfl
    exact hidle _
  | invalidate key => exact obeys_invalidate (s := .start key) (hidle key)
  | swap_reembedded key model =>
    exact Obeys.bind (obeys_swap_inner (s := .start key) (hidle key)) fun _ _ h => h

end VectorDb.VecCache
