import Mathlib.Data.List.Basic
import Mathlib.Data.List.Induction

set_option autoImplicit false

/-!
# Journals

A journal is a list of numbered events. `replay step n s events` applies them to a state from
number `n + 1` on, and stops when one cannot be applied. Replaying an appended batch continues where
the journal ended, so a state that is kept up to date batch by batch is the replay of everything
recorded so far.

For computations that update a state in place and may fail, `runs_bind` and its companions say when
one returns.
-/

namespace Zeroshot

/-! ## Replay -/

section

variable {σ ε : Type} (step : ε → Nat → σ → Option σ)

/-- The state after the events, the first of which has number `n + 1`. -/
def replay : Nat → σ → List ε → Option σ
  | _, s, [] => some s
  | n, s, e :: events =>
    match step e (n + 1) s with
    | some s => replay (n + 1) s events
    | none => none

variable {step}

@[simp] theorem replay_nil (n : Nat) (s : σ) : replay step n s [] = some s := rfl

theorem replay_cons {n : Nat} {s t : σ} {e : ε} {events : List ε} (h : step e (n + 1) s = some t) :
    replay step n s (e :: events) = replay step (n + 1) t events := by
  rw [replay, h]

theorem replay_append {n : Nat} {s t : σ} {events : List ε} (h : replay step n s events = some t)
    (more : List ε) :
    replay step n s (events ++ more) = replay step (n + events.length) t more := by
  induction events generalizing n s with
  | nil =>
    cases h
    rfl
  | cons e events ih =>
    rw [replay] at h
    split at h
    · rename_i s₁ hstep
      rw [List.cons_append, replay_cons hstep, ih h, List.length_cons]
      congr 1
      omega
    · cases h

/-- What every applicable event keeps, a replay keeps. -/
theorem replay_invariant {P : Nat → σ → Prop} {n : Nat} {s t : σ} {events : List ε}
    (hstep : ∀ e n s s', step e (n + 1) s = some s' → P n s → P (n + 1) s')
    (h : replay step n s events = some t) (hs : P n s) : P (n + events.length) t := by
  induction events generalizing n s with
  | nil =>
    cases h
    exact hs
  | cons e events ih =>
    rw [replay] at h
    split at h
    · rename_i s₁ hs₁
      have := ih h (hstep e n s s₁ hs₁ hs)
      rw [List.length_cons]
      rwa [show n + (events.length + 1) = n + 1 + events.length by omega]
    · cases h

/-- The state in the middle of a replay. -/
theorem replay_split {n : Nat} {s t : σ} {front rest : List ε}
    (h : replay step n s (front ++ rest) = some t) :
    ∃ u, replay step n s front = some u ∧ replay step (n + front.length) u rest = some t := by
  induction front generalizing n s with
  | nil => exact ⟨s, rfl, h⟩
  | cons e front ih =>
    rw [List.cons_append, replay] at h
    split at h
    · rename_i s₁ hs₁
      obtain ⟨u, hfront, hrest⟩ := ih h
      refine ⟨u, by rw [replay_cons hs₁, hfront], ?_⟩
      rwa [List.length_cons, show n + (front.length + 1) = n + 1 + front.length by omega]
    · cases h

/-- A fact about the state and the events that led to it, shown event by event. -/
theorem replay_history {P : List ε → σ → Prop} {n : Nat} {s t : σ} {events : List ε}
    (h : replay step n s events = some t) (hs : P [] s)
    (hstep : ∀ front e u u', P front u → step e (n + front.length + 1) u = some u' →
      P (front ++ [e]) u') : P events t := by
  induction events using List.reverseRecOn generalizing t with
  | nil =>
    cases h
    exact hs
  | append_singleton front e ih =>
    obtain ⟨u, hfront, hlast⟩ := replay_split h
    rw [replay] at hlast
    split at hlast
    · rename_i u' hu'
      cases hlast
      exact hstep front e u t (ih hfront) hu'
    · cases hlast

end

/-! ## Updates in place -/

section

variable {ε σ α β : Type}

/-- A computation returns when its first part does, and the second from there. -/
theorem runs_bind {x : EStateM ε σ α} {f : α → EStateM ε σ β} {s s' : σ} {b : β} :
    (x >>= f) s = .ok b s' ↔ ∃ a t, x s = .ok a t ∧ f a t = .ok b s' := by
  change EStateM.bind x f s = _ ↔ _
  unfold EStateM.bind
  cases x s with
  | ok a t => simp
  | error e t => simp

theorem runs_pure {a b : α} {s s' : σ} :
    (pure a : EStateM ε σ α) s = .ok b s' ↔ a = b ∧ s = s' := by
  change EStateM.Result.ok a s = _ ↔ _
  simp

theorem runs_throw {e : ε} {b : α} {s s' : σ} :
    ¬ (throw e : EStateM ε σ α) s = .ok b s' := by
  intro h
  cases h

theorem runs_get {a : σ} {s s' : σ} :
    (get : EStateM ε σ σ) s = .ok a s' ↔ s = a ∧ s = s' := by
  change EStateM.Result.ok s s = _ ↔ _
  simp

theorem runs_modify {f : σ → σ} {u : PUnit} {s s' : σ} :
    (modify f : EStateM ε σ PUnit) s = .ok u s' ↔ s' = f s := by
  change EStateM.Result.ok PUnit.unit (f s) = _ ↔ _
  simp [eq_comm]

end

end Zeroshot
