import VynkorPlugins.Telegram.Calls

/-!
# The breaker trips

The counter of an account and the watched row: as long as no counted flood wait of the row is
forgotten, the counter and the flood waits that still sleep are together at least the row.
-/

namespace Telegram

open Breaker Transition

variable {b : Bucket} {e e' : AccountState b} {now : Nat} {account : String}

/-! ## The entry of an account -/

/-- The circuit is open at three counted flood waits, since the last one of them. -/
structure Sound (e : AccountState b) (now : Nat) : Prop where
  iff_open : e.circuit_open = true ↔ CIRCUIT_OPEN_THRESHOLD ≤ e.consecutive_flood_waits
  opened_at : e.circuit_open = true → ∃ t, e.circuit_opened_at = some t ∧ t ≤ now

theorem Sound.mono {now' : Nat} (h : Sound e now) (hle : now ≤ now') : Sound e now' where
  iff_open := h.iff_open
  opened_at hopen := by
    obtain ⟨t, ht, hle'⟩ := h.opened_at hopen
    exact ⟨t, ht, hle'.trans hle⟩

theorem sound_new (now now' : Nat) : Sound (.new now : AccountState b) now' where
  iff_open := by simp [AccountState.new, CIRCUIT_OPEN_THRESHOLD]
  opened_at h := by cases h

/-- A token is taken, or waited for. -/
inductive Acquired (e : AccountState b) : Gate × AccountState b → Prop
  | passed {bucket : b.State} : Acquired e (.passed, { e with bucket, consecutive_flood_waits := 0 })
  | wait {ns : Nat} {bucket : b.State} : Acquired e (.wait ns, { e with bucket })

theorem acquired_acquire (e : AccountState b) (now : Nat) : Acquired e (e.acquire now) := by
  unfold AccountState.acquire
  split
  · exact .passed
  · exact .wait

/-- What a try of `check` does. -/
inductive Checked (e : AccountState b) (now : Nat) : Gate × AccountState b → Prop
  | refused {error : String} (hopen : e.circuit_open = true) (hcool : e.cooled_down now = false) :
      Checked e now (.refused error, e)
  | half_open {r : Gate × AccountState b} (hopen : e.circuit_open = true)
      (hcool : e.cooled_down now = true) (hr : Acquired e.half_open r) : Checked e now r
  | closed {r : Gate × AccountState b} (hclosed : e.circuit_open = false) (hr : Acquired e r) :
      Checked e now r

theorem checked_check (e : AccountState b) (account : String) (now : Nat) :
    Checked e now (e.check account now) := by
  unfold AccountState.check
  by_cases hopen : e.circuit_open = true
  · rw [if_pos hopen]
    by_cases hcool : e.cooled_down now = true
    · rw [if_pos hcool]
      exact .half_open hopen hcool (acquired_acquire _ _)
    · rw [if_neg hcool]
      exact .refused hopen (by simpa using hcool)
  · rw [if_neg hopen]
    exact .closed (by simpa using hopen) (acquired_acquire _ _)

theorem Sound.checked {r : Gate × AccountState b} (h : Sound e now) (hr : Checked e now r) :
    Sound r.2 now := by
  cases hr with
  | refused hopen hcool => exact h
  | half_open hopen hcool hr =>
    cases hr with
    | passed => exact ⟨by simp [AccountState.half_open, CIRCUIT_OPEN_THRESHOLD], fun h => nomatch h⟩
    | wait => exact ⟨by simp [AccountState.half_open, CIRCUIT_OPEN_THRESHOLD], fun h => nomatch h⟩
  | closed hclosed hr =>
    have hnot : ¬ e.circuit_open = true := by simp [hclosed]
    cases hr with
    | passed =>
      refine ⟨⟨fun h => absurd h hnot, fun h => ?_⟩, fun h => absurd h hnot⟩
      simp [CIRCUIT_OPEN_THRESHOLD] at h
    | wait => exact ⟨h.iff_open, h.opened_at⟩

/-- A check after which no flood wait is forgotten leaves the counter, and one that is not refused
    leaves the circuit closed. -/
theorem Checked.count {r : Gate × AccountState b} (hr : Checked e now r) :
    r.2.consecutive_flood_waits = 0 ∨ r.2.consecutive_flood_waits = e.consecutive_flood_waits := by
  cases hr with
  | refused hopen hcool => exact .inr rfl
  | half_open hopen hcool hr =>
    cases hr with
    | passed => exact .inl rfl
    | wait => exact .inl rfl
  | closed hclosed hr =>
    cases hr with
    | passed => exact .inl rfl
    | wait => exact .inr rfl

/-- A circuit that was opened less than a cooldown ago lets nothing through. -/
theorem Checked.refused_of_open {r : Gate × AccountState b} (hr : Checked e now r) {t : Nat}
    (hopen : e.circuit_open = true) (ht : e.circuit_opened_at = some t)
    (hlt : now < t + CIRCUIT_COOLDOWN) : r.1 ≠ .passed ∧ r.2 = e := by
  have hcool : e.cooled_down now = false := by
    unfold AccountState.cooled_down
    rw [ht]
    have hpos : 0 < CIRCUIT_COOLDOWN := by decide
    simp only [decide_eq_false_iff_not]
    omega
  cases hr with
  | refused hopen' hcool' => exact ⟨by simp, rfl⟩
  | half_open hopen' hcool' hr =>
    rw [hcool] at hcool'
    cases hcool'
  | closed hclosed hr =>
    rw [hopen] at hclosed
    cases hclosed

theorem on_flood_wait_count (e : AccountState b) (now : Nat) :
    (e.on_flood_wait now).consecutive_flood_waits = e.consecutive_flood_waits + 1 := by
  unfold AccountState.on_flood_wait
  dsimp only
  split_ifs <;> rfl

/-- A flood wait that is at least the third one opens the circuit. -/
theorem on_flood_wait_opens (now : Nat) (h : CIRCUIT_OPEN_THRESHOLD ≤ e.consecutive_flood_waits + 1) :
    (e.on_flood_wait now).circuit_open = true ∧ (e.on_flood_wait now).circuit_opened_at = some now := by
  unfold AccountState.on_flood_wait
  dsimp only
  rw [if_pos h]
  exact ⟨rfl, rfl⟩

theorem Sound.on_flood_wait (h : Sound e now) : Sound (e.on_flood_wait now) now := by
  by_cases hle : CIRCUIT_OPEN_THRESHOLD ≤ e.consecutive_flood_waits + 1
  · obtain ⟨hopen, hat⟩ := on_flood_wait_opens now hle
    refine ⟨⟨fun _ => ?_, fun _ => hopen⟩, fun _ => ⟨now, hat, Nat.le_refl _⟩⟩
    rw [on_flood_wait_count]
    exact hle
  · have hsame : e.on_flood_wait now =
        { e with consecutive_flood_waits := e.consecutive_flood_waits + 1 } := if_neg hle
    rw [hsame]
    refine ⟨⟨fun hopen => ?_, fun hle' => absurd hle' hle⟩, h.opened_at⟩
    exact (h.iff_open.mp hopen).trans (Nat.le_succ _)

/-! ## The watched breaker -/

/-- What the counter knows of the row. -/
def Counts (e : AccountState b) (now : Nat) (w : Watch Nat) : Prop :=
  match w.mode with
  | .closed =>
    w.streak < CIRCUIT_OPEN_THRESHOLD ∧
      w.streak ≤ e.consecutive_flood_waits + w.unreported.length
  | .opened [] since _ =>
    since + CIRCUIT_COOLDOWN ≤ now ∨
      e.circuit_open = true ∧ ∃ t, e.circuit_opened_at = some t ∧ since ≤ t
  | .opened (j :: awaiting) since again =>
    since ≤ now ∧ if again then awaiting = []
      else CIRCUIT_OPEN_THRESHOLD ≤ e.consecutive_flood_waits + (j :: awaiting).length
  | .probing _ => w.streak ≤ e.consecutive_flood_waits + w.unreported.length

/-- Some calls of an account have a flood wait that sleeps, each once. -/
structure Sleeping (mine : Nat → Prop) (calls : Nat → Phase) (is : List Nat) : Prop where
  nodup : is.Nodup
  mine : ∀ i ∈ is, mine i
  sleeps : ∀ i ∈ is, ∃ seconds, calls i = .on_flood_wait seconds

variable {mine : Nat → Prop} {calls : Nat → Phase} {is : List Nat} {i : Nat} {phase : Phase}

theorem Sleeping.nil : Sleeping mine calls [] :=
  ⟨List.nodup_nil, fun _ h => (nomatch h), fun _ h => nomatch h⟩

/-- A call that is none of them moves. -/
theorem Sleeping.update (h : Sleeping mine calls is) (hi : i ∉ is) :
    Sleeping mine (Function.update calls i phase) is := by
  refine ⟨h.nodup, h.mine, fun j hj => ?_⟩
  obtain ⟨seconds, hs⟩ := h.sleeps j hj
  refine ⟨seconds, ?_⟩
  rw [Function.update_of_ne, hs]
  rintro rfl
  exact hi hj

theorem Sleeping.not_mem (h : Sleeping mine calls is)
    (hi : mine i → ∀ seconds, calls i ≠ .on_flood_wait seconds) : i ∉ is := by
  intro hmem
  obtain ⟨seconds, hs⟩ := h.sleeps i hmem
  exact hi (h.mine i hmem) seconds hs

theorem Sleeping.cons (h : Sleeping mine calls is) (hmine : mine i) (hi : i ∉ is)
    (seconds : UInt64) :
    Sleeping mine (Function.update calls i (.on_flood_wait seconds)) (i :: is) := by
  refine ⟨List.nodup_cons.mpr ⟨hi, h.nodup⟩, fun j hj => ?_, fun j hj => ?_⟩
  · rcases List.mem_cons.mp hj with rfl | hj
    · exact hmine
    · exact h.mine j hj
  · rcases List.mem_cons.mp hj with rfl | hj
    · exact ⟨seconds, Function.update_self _ _ _⟩
    · exact (h.update hi).sleeps j hj

/-- The sleep of a call is over. -/
theorem Sleeping.erase (h : Sleeping mine calls is) :
    Sleeping mine (Function.update calls i phase) (is.erase i) := by
  refine ⟨h.nodup.erase i, fun j hj => h.mine j (List.mem_of_mem_erase hj), fun j hj => ?_⟩
  obtain ⟨hne, hj⟩ := (List.Nodup.mem_erase_iff h.nodup).mp hj
  obtain ⟨seconds, hs⟩ := h.sleeps j hj
  exact ⟨seconds, by rw [Function.update_of_ne hne, hs]⟩

/-- The entry of the account, the sleeping calls, and the checks that got through. -/
structure BreakerInv (accounts : Nat → String) (watched : String) (w : World b) : Prop where
  sound : Sound (w.entry watched) w.now
  counts : Counts (w.entry watched) w.now w.watched.watch
  unreported : Sleeping (fun i => accounts i = watched) w.calls w.watched.watch.unreported
  awaiting : Sleeping (fun i => accounts i = watched) w.calls w.watched.watch.mode.awaiting
  passes : ∀ p ∈ w.watched.passes, p.1.Allows CIRCUIT_COOLDOWN p.2

/-! ## One step -/

variable {w : Watch Nat}

theorem Counts.mono {now' : Nat} (h : Counts e now w) (hle : now ≤ now') : Counts e now' w := by
  unfold Counts at h ⊢
  split
  · rename_i hmode
    rw [hmode] at h
    exact h
  · rename_i hmode
    rw [hmode] at h
    exact h.imp_left fun h => h.trans hle
  · rename_i hmode
    rw [hmode] at h
    exact ⟨h.1.trans hle, h.2⟩
  · rename_i hmode
    rw [hmode] at h
    exact h

/-- What a try of `check` must not do. -/
def Spares (w : Watch Nat) (r : Gate × AccountState b) : Prop :=
  match w.mode with
  | .closed => r.2.consecutive_flood_waits = 0 → w.streak ≤ w.unreported.length
  | .opened awaiting _ _ => awaiting = []
  | .probing _ => False

theorem Counts.check {r : Gate × AccountState b} (h : Counts e now w) (hr : Checked e now r)
    (hspares : Spares w r) : Counts r.2 now w ∧
      (r.1 = .passed → w.mode.Allows CIRCUIT_COOLDOWN now ∧ Counts r.2 now (w.pass i)) := by
  obtain ⟨mode, streak, unreported⟩ := w
  cases mode with
  | closed =>
    obtain ⟨hlt, hle⟩ := h
    have hcount : streak ≤ r.2.consecutive_flood_waits + unreported.length := by
      rcases hr.count with hzero | hsame
      · exact (hspares hzero).trans (Nat.le_add_left _ _)
      · rw [hsame]
        exact hle
    exact ⟨⟨hlt, hcount⟩, fun _ => ⟨trivial, hlt, hcount⟩⟩
  | opened awaiting since again =>
    obtain rfl : awaiting = [] := hspares
    by_cases hcool : since + CIRCUIT_COOLDOWN ≤ now
    · exact ⟨.inl hcool, fun _ => ⟨⟨rfl, hcool⟩, Nat.zero_le _⟩⟩
    · obtain ⟨hopen, t, ht, hle⟩ := h.resolve_left hcool
      obtain ⟨hgate, hsame⟩ := hr.refused_of_open hopen ht (by omega)
      rw [hsame]
      exact ⟨h, fun hpassed => absurd hpassed hgate⟩
  | probing j => exact hspares.elim

theorem Counts.reject (h : Counts e now w) :
    Counts e now (w.reject CIRCUIT_OPEN_THRESHOLD now i) := by
  obtain ⟨mode, streak, unreported⟩ := w
  unfold Watch.reject
  cases mode with
  | closed =>
    obtain ⟨hlt, hle⟩ := h
    simp only at hlt hle ⊢
    split_ifs with hstreak
    · refine ⟨Nat.le_refl now, ?_⟩
      simp only [Bool.false_eq_true, if_false, List.length_cons]
      omega
    · refine ⟨?_, ?_⟩
      · simp only
        omega
      · simp only [List.length_cons]
        omega
  | opened awaiting since again =>
    cases awaiting with
    | nil => exact h
    | cons j awaiting => exact h
  | probing j =>
    have hle : streak ≤ e.consecutive_flood_waits + unreported.length := h
    simp only
    split_ifs with hprobe hstreak
    · exact ⟨Nat.le_refl now, rfl⟩
    · refine ⟨Nat.le_refl now, ?_⟩
      simp only [Bool.false_eq_true, if_false, List.length_cons]
      omega
    · change streak + 1 ≤ _ + (i :: unreported).length
      rw [List.length_cons]
      omega

theorem Counts.settle (h : Counts e now w) : Counts e now (w.settle i) := by
  obtain ⟨mode, streak, unreported⟩ := w
  have hpos : 0 < CIRCUIT_OPEN_THRESHOLD := by decide
  unfold Watch.settle
  cases mode with
  | closed => exact ⟨hpos, Nat.zero_le _⟩
  | opened awaiting since again =>
    cases awaiting with
    | nil => exact h
    | cons j awaiting => exact h
  | probing j =>
    simp only
    split_ifs with hprobe
    · exact ⟨hpos, Nat.zero_le _⟩
    · exact Nat.zero_le _

theorem Counts.answer (h : Counts e now w) (a : Answer) :
    Counts e now (w.answer CIRCUIT_OPEN_THRESHOLD now i a) := by
  cases a with
  | success => exact h.settle
  | rejected => exact h.reject
  | other => exact h.settle

theorem length_le_erase (is : List Nat) : is.length ≤ (is.erase i).length + 1 := by
  rw [List.length_erase]
  split_ifs <;> omega

/-- A counted flood wait. The one of the call after a cooldown must be at least the third one. -/
theorem Counts.report (h : Counts e now w) (hsound : Sound e now)
    (hagain : ∀ j since, w.mode = .opened [j] since true → i = j →
      2 ≤ e.consecutive_flood_waits) :
    Counts (e.on_flood_wait now) now (w.report now i) := by
  obtain ⟨mode, streak, unreported⟩ := w
  have hcount := on_flood_wait_count e now
  have herase := length_le_erase (i := i) unreported
  unfold Watch.report
  cases mode with
  | closed =>
    obtain ⟨hlt, hle⟩ := h
    refine ⟨hlt, ?_⟩
    simp only at hle ⊢
    omega
  | probing j =>
    have hle : streak ≤ e.consecutive_flood_waits + unreported.length := h
    change streak ≤ (e.on_flood_wait now).consecutive_flood_waits + (unreported.erase i).length
    omega
  | opened awaiting since again =>
    cases awaiting with
    | nil =>
      simp only [List.not_mem_nil, if_false]
      rcases h with hcool | ⟨hopen, t, ht, hle⟩
      · exact .inl hcool
      · have hthree := (hsound.iff_open.mp hopen).trans (Nat.le_succ _)
        obtain ⟨hopen', hat⟩ := on_flood_wait_opens now hthree
        obtain ⟨t', ht', hle'⟩ := hsound.opened_at hopen
        obtain rfl := Option.some.inj (ht.symm.trans ht')
        exact .inr ⟨hopen', now, hat, hle.trans hle'⟩
    | cons j awaiting =>
      obtain ⟨hsince, hrest⟩ := h
      simp only
      by_cases hi : i ∈ j :: awaiting
      · rw [if_pos hi]
        have hlength := List.length_erase_of_mem hi
        cases again with
        | true =>
          obtain rfl : awaiting = [] := hrest
          obtain rfl := List.mem_singleton.mp hi
          rw [List.erase_cons_head]
          have htwo := hagain i since rfl rfl
          obtain ⟨hopen, hat⟩ := on_flood_wait_opens (e := e) now (by
            change 3 ≤ _
            omega)
          exact .inr ⟨hopen, now, hat, Nat.le_refl _⟩
        | false =>
          have hthree : CIRCUIT_OPEN_THRESHOLD ≤ e.consecutive_flood_waits + (j :: awaiting).length :=
            hrest
          cases hnext : (j :: awaiting).erase i with
          | nil =>
            rw [hnext] at hlength
            obtain ⟨hopen, hat⟩ := on_flood_wait_opens (e := e) now (by
              simp only [List.length_nil] at hlength
              omega)
            exact .inr ⟨hopen, now, hat, Nat.le_refl _⟩
          | cons k rest =>
            rw [hnext] at hlength
            refine ⟨Nat.le_refl _, ?_⟩
            simp only [Bool.false_eq_true, if_false]
            omega
      · rw [if_neg hi]
        refine ⟨hsince, ?_⟩
        cases again with
        | true => exact hrest
        | false =>
          have hthree : CIRCUIT_OPEN_THRESHOLD ≤ e.consecutive_flood_waits + (j :: awaiting).length :=
            hrest
          simp only [Bool.false_eq_true, if_false]
          omega

/-! ## Calls -/

theorem sleeping_reject {w : Watch Nat} {seconds : UInt64} (hmine : mine i)
    (hu : Sleeping mine calls w.unreported) (ha : Sleeping mine calls w.mode.awaiting)
    (hi : ∀ seconds, calls i ≠ .on_flood_wait seconds) :
    Sleeping mine (Function.update calls i (.on_flood_wait seconds))
      (w.reject CIRCUIT_OPEN_THRESHOLD now i).unreported ∧
      Sleeping mine (Function.update calls i (.on_flood_wait seconds))
        (w.reject CIRCUIT_OPEN_THRESHOLD now i).mode.awaiting := by
  obtain ⟨mode, streak, unreported⟩ := w
  have hcons := hu.cons hmine (hu.not_mem fun _ => hi) seconds
  unfold Watch.reject
  cases mode with
  | closed =>
    simp only
    split_ifs
    · exact ⟨hcons, hcons⟩
    · exact ⟨hcons, .nil⟩
  | opened awaiting since again => exact ⟨hcons, ha.update (ha.not_mem fun _ => hi)⟩
  | probing j =>
    simp only
    split_ifs
    · exact ⟨hcons, Sleeping.nil.cons hmine List.not_mem_nil seconds⟩
    · exact ⟨hcons, hcons⟩
    · exact ⟨hcons, .nil⟩

theorem awaiting_settle (w : Watch Nat) : (w.settle i).mode.awaiting = w.mode.awaiting := by
  obtain ⟨mode, streak, unreported⟩ := w
  unfold Watch.settle
  cases mode with
  | closed => rfl
  | opened awaiting since again => rfl
  | probing j =>
    simp only
    split_ifs <;> rfl

theorem awaiting_report (w : Watch Nat) :
    (w.report now i).mode.awaiting = w.mode.awaiting.erase i := by
  obtain ⟨mode, streak, unreported⟩ := w
  unfold Watch.report
  cases mode with
  | closed => rfl
  | opened awaiting since again =>
    simp only
    split_ifs with hi
    · rfl
    · exact (List.erase_of_not_mem hi).symm
  | probing j => rfl

theorem unreported_pass (w : Watch Nat) (i : Nat) :
    (w.pass i).unreported = [] ∨ (w.pass i).unreported = w.unreported := by
  obtain ⟨mode, streak, unreported⟩ := w
  cases mode with
  | closed => exact .inr rfl
  | opened awaiting since again => exact .inl rfl
  | probing j => exact .inr rfl

theorem awaiting_pass (w : Watch Nat) (i : Nat) :
    (w.pass i).mode.awaiting = [] ∨ (w.pass i).mode.awaiting = w.mode.awaiting := by
  obtain ⟨mode, streak, unreported⟩ := w
  cases mode with
  | closed => exact .inr rfl
  | opened awaiting since again => exact .inl rfl
  | probing j => exact .inr rfl

theorem finish_of_rejected {result : Except String Unit} (h : answerOf result = .rejected) :
    ∃ seconds, finish result = .on_flood_wait seconds := by
  cases result with
  | ok _ => cases h
  | error err =>
    unfold answerOf at h
    unfold finish
    cases hparse : parse_flood_wait_seconds err with
    | some seconds => exact ⟨seconds, by simp [hparse]⟩
    | none => simp [hparse] at h

/-! ## Runs -/

variable {accounts : Nat → String} {watched : String} {s s' : World b}

theorem entry_insert (state : Antiban b) (e : AccountState b) (a : String) :
    Antiban.entry (state.insert a e) watched now = if a = watched then e else state.entry watched now := by
  unfold Antiban.entry
  rw [Table.getElem?_insert_ite]
  split_ifs <;> rfl

/-- A call of another account moves. -/
theorem BreakerInv.other (h : BreakerInv accounts watched s) (hi : accounts i ≠ watched)
    (hentry : s'.entry watched = s.entry watched) (hnow : s'.now = s.now)
    (hwatched : s'.watched = s.watched) (hcalls : s'.calls = Function.update s.calls i phase) :
    BreakerInv accounts watched s' := by
  constructor
  · rw [hentry, hnow]
    exact h.sound
  · rw [hentry, hnow, hwatched]
    exact h.counts
  · rw [hwatched, hcalls]
    exact h.unreported.update (h.unreported.not_mem fun hmine => absurd hmine hi)
  · rw [hwatched, hcalls]
    exact h.awaiting.update (h.awaiting.not_mem fun hmine => absurd hmine hi)
  · rw [hwatched]
    exact h.passes

theorem BreakerInv.attempt (h : BreakerInv accounts watched s) (hi : s.calls i = .checking)
    (hcareful : Careful accounts watched s (.attempt i)) :
    BreakerInv accounts watched (s.attempt accounts watched i) := by
  have hidle : ∀ seconds, s.calls i ≠ .on_flood_wait seconds := by
    intro seconds hs
    rw [hi] at hs
    cases hs
  by_cases hmine : accounts i = watched
  · subst hmine
    set r := (s.entry (accounts i)).check (accounts i) s.now with hr
    have hentry : (s.attempt accounts (accounts i) i).entry (accounts i) = r.2 :=
      (entry_insert _ _ _).trans (if_pos rfl)
    have hchecked : Checked (s.entry (accounts i)) s.now r := checked_check _ _ _
    have hspares : Spares s.watched.watch r := hcareful rfl
    obtain ⟨hcounts, hpass⟩ := h.counts.check hchecked hspares (i := i)
    have hwatched : (s.attempt accounts (accounts i) i).watched =
        if r.1 = .passed then
          { watch := s.watched.watch.pass i
            passes := (s.watched.watch.mode, s.now) :: s.watched.passes }
        else s.watched := by
      change (if accounts i = accounts i ∧ r.1 = .passed then _ else _) = _
      simp only [true_and]
    constructor
    · rw [hentry]
      exact h.sound.checked hchecked
    · rw [hentry, hwatched]
      split_ifs with hpassed
      · exact (hpass hpassed).2
      · exact hcounts
    · rw [hwatched]
      have hu := h.unreported.not_mem fun _ => hidle
      split_ifs with hpassed
      · rcases unreported_pass s.watched.watch i with hnil | hsame
        · rw [hnil]
          exact .nil
        · rw [hsame]
          exact h.unreported.update hu
      · exact h.unreported.update hu
    · rw [hwatched]
      have ha := h.awaiting.not_mem fun _ => hidle
      split_ifs with hpassed
      · rcases awaiting_pass s.watched.watch i with hnil | hsame
        · rw [hnil]
          exact .nil
        · rw [hsame]
          exact h.awaiting.update ha
      · exact h.awaiting.update ha
    · rw [hwatched]
      split_ifs with hpassed
      · intro p hp
        rcases List.mem_cons.mp hp with rfl | hp
        · exact (hpass hpassed).1
        · exact h.passes p hp
      · exact h.passes
  · refine h.other hmine ?_ rfl (if_neg fun hc => hmine hc.1) rfl
    exact (entry_insert _ _ _).trans (if_neg hmine)

theorem BreakerInv.answer (h : BreakerInv accounts watched s) (hi : s.calls i = .calling)
    (result : Except String Unit) :
    BreakerInv accounts watched (s.answer accounts watched i result) := by
  have hidle : ∀ seconds, s.calls i ≠ .on_flood_wait seconds := by
    intro seconds hs
    rw [hi] at hs
    cases hs
  by_cases hmine : accounts i = watched
  · have hwatched : (s.answer accounts watched i result).watched =
        { s.watched with
          watch := s.watched.watch.answer CIRCUIT_OPEN_THRESHOLD s.now i (answerOf result) } :=
      if_pos hmine
    have hsleeping : Sleeping (fun i => accounts i = watched) (s.answer accounts watched i result).calls
          (s.watched.watch.answer CIRCUIT_OPEN_THRESHOLD s.now i (answerOf result)).unreported ∧
        Sleeping (fun i => accounts i = watched) (s.answer accounts watched i result).calls
          (s.watched.watch.answer CIRCUIT_OPEN_THRESHOLD s.now i (answerOf result)).mode.awaiting := by
      change Sleeping _ (Function.update s.calls i (finish result)) _ ∧
        Sleeping _ (Function.update s.calls i (finish result)) _
      have hsettle : Sleeping (fun i => accounts i = watched)
          (Function.update s.calls i (finish result)) (s.watched.watch.settle i).mode.awaiting := by
        rw [awaiting_settle]
        exact h.awaiting.update (h.awaiting.not_mem fun _ => hidle)
      cases ha : answerOf result with
      | success => exact ⟨.nil, hsettle⟩
      | other => exact ⟨.nil, hsettle⟩
      | rejected =>
        obtain ⟨seconds, hs⟩ := finish_of_rejected ha
        rw [hs]
        exact sleeping_reject hmine h.unreported h.awaiting hidle
    constructor
    · exact h.sound
    · rw [hwatched]
      exact h.counts.answer _
    · rw [hwatched]
      exact hsleeping.1
    · rw [hwatched]
      exact hsleeping.2
    · rw [hwatched]
      exact h.passes
  · exact h.other hmine rfl rfl (if_neg hmine) rfl

theorem BreakerInv.report (h : BreakerInv accounts watched s)
    (hcareful : Careful accounts watched s (.report i)) :
    BreakerInv accounts watched (s.report accounts watched i) := by
  by_cases hmine : accounts i = watched
  · subst hmine
    have hentry : (s.report accounts (accounts i) i).entry (accounts i) =
        (s.entry (accounts i)).on_flood_wait s.now := (entry_insert _ _ _).trans (if_pos rfl)
    have hwatched : (s.report accounts (accounts i) i).watched =
        { s.watched with watch := s.watched.watch.report s.now i } := if_pos rfl
    have hagain : ∀ j since, s.watched.watch.mode = .opened [j] since true → i = j →
        2 ≤ (s.entry (accounts i)).consecutive_flood_waits := by
      intro j since hmode hij
      have hc := hcareful rfl
      rw [hmode] at hc
      exact hc hij
    constructor
    · rw [hentry]
      exact h.sound.on_flood_wait
    · rw [hentry, hwatched]
      exact h.counts.report h.sound hagain
    · rw [hwatched]
      exact h.unreported.erase
    · rw [hwatched]
      change Sleeping _ _ (s.watched.watch.report s.now i).mode.awaiting
      rw [awaiting_report]
      exact h.awaiting.erase
    · rw [hwatched]
      exact h.passes
  · refine h.other hmine ?_ rfl (if_neg hmine) rfl
    exact (entry_insert _ _ _).trans (if_neg hmine)

theorem BreakerInv.tick (h : BreakerInv accounts watched s) {now : Nat} (hle : s.now ≤ now) :
    BreakerInv accounts watched { s with now } := by
  have hsound := h.sound.mono hle
  have hcounts := h.counts.mono hle
  unfold World.entry Antiban.entry at hsound hcounts
  refine ⟨?_, ?_, h.unreported, h.awaiting, h.passes⟩
  · unfold World.entry Antiban.entry
    cases he : s.antiban[watched]? with
    | none => exact sound_new _ _
    | some e =>
      rw [he] at hsound
      exact hsound
  · unfold World.entry Antiban.entry
    cases he : s.antiban[watched]? with
    | none =>
      rw [he] at hcounts
      exact hcounts
    | some e =>
      rw [he] at hcounts
      exact hcounts

theorem breakerInv_step {l : Label} (h : BreakerInv accounts watched s)
    (hstep : Step accounts watched s l s') (hcareful : Careful accounts watched s l) :
    BreakerInv accounts watched s' := by
  cases l with
  | tick now =>
    unfold Step World.step at hstep
    simp only at hstep
    split_ifs at hstep with hle
    obtain rfl := Option.some.inj hstep
    exact h.tick hle
  | attempt i =>
    unfold Step World.step at hstep
    simp only at hstep
    split_ifs at hstep with hi
    obtain rfl := Option.some.inj hstep
    exact h.attempt hi hcareful
  | answer i result =>
    unfold Step World.step at hstep
    simp only at hstep
    split_ifs at hstep with hi
    obtain rfl := Option.some.inj hstep
    exact h.answer hi result
  | report i =>
    unfold Step World.step at hstep
    simp only at hstep
    split at hstep
    · obtain rfl := Option.some.inj hstep
      exact h.report hcareful
    · cases hstep

theorem breakerInv_start (now : Nat) :
    BreakerInv accounts watched (World.start now : World b) := by
  have hentry : (World.start now : World b).entry watched = .new now := by
    unfold World.entry Antiban.entry World.start
    simp
  refine ⟨?_, ?_, .nil, .nil, fun p hp => nomatch hp⟩
  · rw [hentry]
    exact sound_new _ _
  · rw [hentry]
    have hpos : 0 < CIRCUIT_OPEN_THRESHOLD := by decide
    exact ⟨hpos, Nat.zero_le _⟩

/-- A check gets through only where the breaker as it should be allows it, and while that one is open
    within its cooldown the circuit is, if no counted flood wait of a row is forgotten, no check is
    tried while a flood wait that counts sleeps or the call after a cooldown is on its way, and a flood
    wait of that call is at least the third one that is counted. -/
theorem breaker_trips {t₀ : Nat} {trace : List Label} {s : World b}
    (hrun : Run (Where (Careful accounts watched) (Step accounts watched)) (.start t₀) trace s) :
    (∀ p ∈ s.watched.passes, p.1.Allows CIRCUIT_COOLDOWN p.2) ∧
      ∀ since again, s.watched.watch.mode = .opened [] since again →
        s.now < since + CIRCUIT_COOLDOWN → s.antiban.is_circuit_open watched = true := by
  have hinv : BreakerInv accounts watched s := by
    refine hrun.invariant_state (I := BreakerInv accounts watched) (breakerInv_start t₀) ?_
    exact fun s l s' h hstep => breakerInv_step h hstep.1 hstep.2
  refine ⟨hinv.passes, fun since again hmode hlt => ?_⟩
  have hcounts := hinv.counts
  unfold Counts at hcounts
  rw [hmode] at hcounts
  have hopen := (hcounts.resolve_left (by omega)).1
  unfold World.entry Antiban.entry at hopen
  unfold Antiban.is_circuit_open
  cases he : s.antiban[watched]? with
  | none =>
    rw [he] at hopen
    cases hopen
  | some e =>
    rw [he] at hopen
    exact hopen

/-! ## Three flood waits -/

def personal (_ : Nat) : String := "personal"

def floodWait : Except String Unit := .error "rpc error 420: FLOOD_WAIT (value: 90)"

/-- The calls of one account from the start of the clock. -/
def runCalls (cond : World Bucket.exact → Label → Prop) [∀ w l, Decidable (cond w l)]
    (labels : List Label) : Option (World Bucket.exact) :=
  runWhere cond (fun w l => w.step personal "personal" l) (.start 0) labels

theorem run_runCalls {cond : World Bucket.exact → Label → Prop} [∀ w l, Decidable (cond w l)]
    {labels : List Label} {w : World Bucket.exact} (h : runCalls cond labels = some w) :
    Run (Where cond (Step personal "personal")) (.start 0) labels.reverse w := by
  have hstart : Run (Where cond (Step personal "personal")) (.start 0) [] (.start 0) := .start
  have hrun := run_of_runWhere hstart h
  rwa [List.append_nil] at hrun

/-- Three calls at a time have a flood wait, the next one is refused, and after the cooldown one gets
    through and succeeds. -/
def callsTogether : List Label :=
  [.attempt 0, .attempt 1, .attempt 2, .answer 0 floodWait, .answer 1 floodWait, .answer 2 floodWait,
    .tick (60 * 10 ^ 9), .report 0, .report 1, .report 2, .attempt 3, .tick (400 * 10 ^ 9), .attempt 4,
    .answer 4 (.ok ()), .attempt 5]

theorem breaker_trips_sample : ∃ w,
    Run (Where (Careful personal "personal") (Step personal "personal"))
      (.start 0 : World Bucket.exact) callsTogether.reverse w ∧
    w.watched.passes.length = 5 ∧ w.calls 3 = .done ∧
    ∀ p ∈ w.watched.passes, p.1.Allows CIRCUIT_COOLDOWN p.2 := by
  have hsome : ((runCalls (Careful personal "personal") callsTogether).any fun w =>
      w.watched.passes.length = 5 ∧ w.calls 3 = .done) = true := by
    decide
  obtain ⟨w, hw, hpasses⟩ := (Option.any_eq_true _ _).mp hsome
  obtain ⟨hlength, hdone⟩ := of_decide_eq_true hpasses
  exact ⟨w, run_runCalls hw, hlength, hdone, (breaker_trips (run_runCalls hw)).1⟩

/-- Three calls one after the other, each with a flood wait that is counted before the next check. -/
def callsInARow : List Label :=
  [0, 1, 2].flatMap (fun i => [.attempt i, .answer i floodWait, .report i]) ++ [.attempt 3]

/-- A check that gets through before the circuit has cooled down. -/
def isEarly (p : Mode Nat × Nat) : Bool :=
  match p.1 with
  | .opened _ since _ => p.2 < since + CIRCUIT_COOLDOWN
  | _ => false

/-- The fourth check gets through at once. -/
theorem breaker_does_not_trip : ∃ w,
    Run (Step personal "personal") (.start 0 : World Bucket.exact) callsInARow.reverse w ∧
    ∃ p ∈ w.watched.passes, ¬ p.1.Allows CIRCUIT_COOLDOWN p.2 := by
  have hsome : ((runCalls (fun _ _ => True) callsInARow).any fun w =>
      w.watched.passes.any isEarly) = true := by
    decide
  obtain ⟨w, hw, hpasses⟩ := (Option.any_eq_true _ _).mp hsome
  obtain ⟨p, hp, hpass⟩ := List.any_eq_true.mp hpasses
  refine ⟨w, (run_runCalls hw).mono fun _ _ _ hl => hl.1, p, hp, fun hallows => ?_⟩
  unfold isEarly at hpass
  split at hpass
  · rename_i hmode
    rw [hmode] at hallows
    have hlt := of_decide_eq_true hpass
    have hle := hallows.2
    omega
  · cases hpass

end Telegram
