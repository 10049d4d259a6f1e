import Mathlib.Data.List.Induction
import Mathlib.Logic.Function.Basic

set_option autoImplicit false

/-!
# Interleaved machines

A machine is a partial step function over events; an event that is not enabled has no step. Several
parties that share a state are one machine whose events name the party that moves, so a run is an
interleaving of their steps.

`run_invariant` is the induction every safety proof uses: what holds at the start and is kept by
every enabled step holds after every run; `run_history` is the same for a fact about the events so
far. `run_append` cuts a run at any point. `Along` says that every step of a run meets a condition;
`along_iff` finds the condition under which a property holds in every state of a run.
-/

namespace Zeroshot.Machine

variable {σ ε : Type} {step : ε → σ → Option σ}

variable (step) in
/-- The state after a run, when every event of it is enabled in its turn. -/
def run : List ε → σ → Option σ
  | [], s => some s
  | e :: events, s => (step e s).bind (run events)

@[simp] theorem run_nil (s : σ) : run step [] s = some s := rfl

theorem run_cons {e : ε} {events : List ε} {s t : σ} :
    run step (e :: events) s = some t ↔ ∃ u, step e s = some u ∧ run step events u = some t := by
  rw [run, Option.bind_eq_some_iff]

theorem run_append {front rest : List ε} {s t : σ} :
    run step (front ++ rest) s = some t ↔
      ∃ u, run step front s = some u ∧ run step rest u = some t := by
  induction front generalizing s with
  | nil => simp
  | cons e front ih =>
    rw [List.cons_append, run_cons]
    constructor
    · rintro ⟨u, hu, hrest⟩
      obtain ⟨v, hv, hrest⟩ := ih.mp hrest
      exact ⟨v, run_cons.mpr ⟨u, hu, hv⟩, hrest⟩
    · rintro ⟨v, hv, hrest⟩
      obtain ⟨u, hu, hv⟩ := run_cons.mp hv
      exact ⟨u, hu, ih.mpr ⟨v, hv, hrest⟩⟩

/-- **Invariants**: what every enabled step keeps, every run keeps. -/
theorem run_invariant {I : σ → Prop} (hstep : ∀ e s t, step e s = some t → I s → I t)
    {events : List ε} {s t : σ} (h : run step events s = some t) (hs : I s) : I t := by
  induction events generalizing s with
  | nil =>
    cases h
    exact hs
  | cons e events ih =>
    obtain ⟨u, hu, hrest⟩ := run_cons.mp h
    exact ih hrest (hstep e s u hu hs)

/-- A fact about the state and the events that led to it, shown event by event. -/
theorem run_history {P : List ε → σ → Prop}
    (hstep : ∀ front e s t, P front s → step e s = some t → P (front ++ [e]) t)
    {events : List ε} {s t : σ} (h : run step events s = some t) (hs : P [] s) : P events t := by
  induction events using List.reverseRecOn generalizing t with
  | nil =>
    cases h
    exact hs
  | append_singleton front e ih =>
    obtain ⟨u, hfront, hlast⟩ := run_append.mp h
    obtain ⟨v, hv, hend⟩ := run_cons.mp hlast
    cases hend
    exact hstep front e u t (ih hfront) hv

variable (step) in
/-- Every step of a run meets a condition on its event and on the state before it. -/
def Along (allowed : ε → σ → Prop) : List ε → σ → Prop
  | [], _ => True
  | e :: events, s => allowed e s ∧ ∀ t ∈ step e s, Along allowed events t

instance decidableAlong {allowed : ε → σ → Prop} [∀ e s, Decidable (allowed e s)] :
    ∀ (events : List ε) (s : σ), Decidable (Along step allowed events s)
  | [], _ => isTrue trivial
  | e :: events, s =>
    have : DecidablePred (Along step allowed events) := decidableAlong events
    inferInstanceAs (Decidable (allowed e s ∧ ∀ t ∈ step e s, Along step allowed events t))

/-- Invariants that only the steps meeting a condition keep. -/
theorem run_invariant_along {I : σ → Prop} {allowed : ε → σ → Prop}
    (hstep : ∀ e s t, allowed e s → step e s = some t → I s → I t)
    {events : List ε} {s t : σ} (h : run step events s = some t)
    (halong : Along step allowed events s) (hs : I s) : I t := by
  induction events generalizing s with
  | nil =>
    cases h
    exact hs
  | cons e events ih =>
    obtain ⟨u, hu, hrest⟩ := run_cons.mp h
    exact ih hrest (halong.2 u hu) (hstep e s u halong.1 hu hs)

/-- The exact condition on the steps of a run under which a property, true at the start, holds in
every state reached. -/
theorem along_iff {I P : σ → Prop} {allowed : ε → σ → Prop}
    (hkeep : ∀ e s t, step e s = some t → I s → I t)
    (hstep : ∀ e s t, step e s = some t → I s → P s → (allowed e s ↔ P t))
    {events : List ε} {s t : σ} (h : run step events s = some t) (hs : I s) (hps : P s) :
    Along step allowed events s ↔
      ∀ front rest u, events = front ++ rest → run step front s = some u → P u := by
  induction events generalizing s with
  | nil =>
    refine iff_of_true trivial fun front rest u hsplit hu => ?_
    rw [(List.append_eq_nil_iff.mp hsplit.symm).1] at hu
    cases hu
    exact hps
  | cons e events ih =>
    obtain ⟨u, hu, hrest⟩ := run_cons.mp h
    have hiff := hstep e s u hu hs hps
    constructor
    · rintro ⟨hallowed, halong⟩ front rest v hsplit hv
      have hpu := hiff.mp hallowed
      cases front with
      | nil =>
        cases hv
        exact hps
      | cons e' front =>
        rw [List.cons_append] at hsplit
        injection hsplit with he hsplit
        subst he
        obtain ⟨w, hw, hv⟩ := run_cons.mp hv
        rw [hu] at hw
        cases hw
        exact (ih hrest (hkeep e s u hu hs) hpu).mp (halong u hu) front rest v hsplit hv
    · intro hall
      have hpu := hall [e] events u rfl (run_cons.mpr ⟨u, hu, rfl⟩)
      refine ⟨hiff.mpr hpu, fun w hw => ?_⟩
      have hsame : u = w := Option.some.inj (hu.symm.trans hw)
      subst hsame
      refine (ih hrest (hkeep e s u hu hs) hpu).mpr fun front rest v hsplit hv => ?_
      exact hall (e :: front) rest v (by rw [hsplit, List.cons_append])
        (run_cons.mpr ⟨u, hu, hv⟩)

end Zeroshot.Machine
