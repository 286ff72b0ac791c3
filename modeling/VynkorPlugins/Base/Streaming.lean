import Mathlib.Data.List.Forall2
import Mathlib.Data.String.Basic

/-!
# Machines that are fed piece by piece

A machine takes the pieces of its input one after the other and puts out what each of them completes.
`feedAll` is a machine that may fail on a piece, `emitAll` one that cannot: where the pieces are the
writings of events that the second machine handles, the first one does what the second one does.
-/

namespace Streaming

variable {σ τ α β ε ι : Type*}

/-- Feeds all pieces, up to the first failure. -/
def feedAll (feed : σ → α → Except ε (σ × List β)) : σ → List α → Except ε (σ × List β)
  | s, [] => .ok (s, [])
  | s, piece :: pieces =>
    match feed s piece with
    | .error e => .error e
    | .ok (s, out) =>
      match feedAll feed s pieces with
      | .error e => .error e
      | .ok (s, more) => .ok (s, out ++ more)

/-- Handles all events. -/
def emitAll (handle : σ → ι → σ × List β) : σ → List ι → σ × List β
  | s, [] => (s, [])
  | s, event :: events =>
    let r := emitAll handle (handle s event).1 events
    (r.1, (handle s event).2 ++ r.2)

variable {feed : σ → α → Except ε (σ × List β)} {handle : σ → ι → σ × List β}

theorem feedAll_cons (s : σ) (piece : α) (pieces : List α) :
    feedAll feed s (piece :: pieces) =
      match feed s piece with
      | .error e => .error e
      | .ok (s, out) =>
        match feedAll feed s pieces with
        | .error e => .error e
        | .ok (s, more) => .ok (s, out ++ more) := rfl

@[simp]
theorem emitAll_nil (s : σ) : emitAll handle s [] = (s, []) := rfl

theorem emitAll_cons (s : σ) (event : ι) (events : List ι) :
    emitAll handle s (event :: events) =
      ((emitAll handle (handle s event).1 events).1,
        (handle s event).2 ++ (emitAll handle (handle s event).1 events).2) := rfl

theorem emitAll_append_fst (s : σ) (events events' : List ι) :
    (emitAll handle s (events ++ events')).1 =
      (emitAll handle (emitAll handle s events).1 events').1 := by
  induction events generalizing s with
  | nil => rfl
  | cons event events ih => exact ih (handle s event).1

/-- Events that do nothing may be left out. -/
theorem emitAll_filter (keep : ι → Bool) (hskip : ∀ s e, keep e = false → handle s e = (s, []))
    (s : σ) (events : List ι) : emitAll handle s (events.filter keep) = emitAll handle s events := by
  induction events generalizing s with
  | nil => rfl
  | cons event events ih =>
    cases hkeep : keep event with
    | true =>
      rw [List.filter_cons_of_pos hkeep, emitAll_cons, emitAll_cons, ih]
    | false =>
      rw [List.filter_cons_of_neg (by simp [hkeep]), ih, emitAll_cons, hskip s event hkeep]
      simp

/-- What one event keeps between the state and all that was put out so far, a run keeps. -/
theorem emitAll_invariant (inv : σ → List β → Prop)
    (hstep : ∀ s out e, inv s out → inv (handle s e).1 (out ++ (handle s e).2))
    {s : σ} {out : List β} (h : inv s out) (events : List ι) :
    inv (emitAll handle s events).1 (out ++ (emitAll handle s events).2) := by
  induction events generalizing s out with
  | nil => simpa using h
  | cons event events ih =>
    rw [emitAll_cons, ← List.append_assoc]
    exact ih (hstep s out event h)

/-- A machine that is one of several kinds. -/
theorem feedAll_map {feed' : τ → α → Except ε (τ × List β)} (wrap : σ → τ)
    (h : ∀ s piece, feed' (wrap s) piece = (feed s piece).map fun r => (wrap r.1, r.2)) (s : σ)
    (pieces : List α) :
    feedAll feed' (wrap s) pieces = (feedAll feed s pieces).map fun r => (wrap r.1, r.2) := by
  induction pieces generalizing s with
  | nil => rfl
  | cons piece pieces ih =>
    rw [feedAll_cons, feedAll_cons, h]
    cases feed s piece with
    | error e => rfl
    | ok r =>
      simp only [Except.map, ih]
      cases feedAll feed r.1 pieces with
      | error e => rfl
      | ok r => rfl

/-- Pieces that do nothing may be left out. -/
theorem feedAll_filter (keep : α → Bool)
    (hskip : ∀ s piece, keep piece = false → feed s piece = .ok (s, [])) (s : σ) (pieces : List α) :
    feedAll feed s (pieces.filter keep) = feedAll feed s pieces := by
  induction pieces generalizing s with
  | nil => rfl
  | cons piece pieces ih =>
    cases hkeep : keep piece with
    | true =>
      rw [List.filter_cons_of_pos hkeep]
      rw [feedAll_cons, feedAll_cons]
      cases feed s piece with
      | error e => rfl
      | ok r =>
        dsimp only
        rw [ih]
    | false =>
      rw [List.filter_cons_of_neg (by simp [hkeep]), ih, feedAll_cons, hskip s piece hkeep]
      dsimp only
      cases feedAll feed s pieces with
      | error e => rfl
      | ok r => rfl

/-- Pieces that are the writings of some events are taken as these events. -/
theorem feedAll_eq {events : List ι} {pieces : List α}
    (h : List.Forall₂ (fun e piece => ∀ s, feed s piece = .ok (handle s e)) events pieces) (s : σ) :
    feedAll feed s pieces = .ok (emitAll handle s events) := by
  induction h generalizing s with
  | nil => rfl
  | cons hpiece _ ih =>
    rw [feedAll_cons, hpiece]
    simp only [ih]
    rfl

end Streaming
