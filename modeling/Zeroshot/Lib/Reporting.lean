import Mathlib.Data.List.Basic

set_option autoImplicit false

/-!
# Computations that report

`Reporting σ δ α` is a computation over a state `σ` that returns an `α` and emits reports of type
`δ`. Reports only accumulate and cannot be read back, so a computation is silent exactly when all
its parts are (`silent_bind`): that nothing was reported by the whole says that every check inside
passed.
-/

namespace Zeroshot

/-- What a reporting computation gives back. -/
structure Reported (σ δ α : Type) where
  value : α
  state : σ
  reports : List δ

/-- A computation with a state and reports. -/
def Reporting (σ δ α : Type) : Type := σ → Reported σ δ α

namespace Reporting

variable {σ δ α β : Type}

instance : Monad (Reporting σ δ) where
  pure a := fun s => ⟨a, s, []⟩
  bind x f := fun s =>
    match x s with
    | ⟨a, s', first⟩ =>
      match f a s' with
      | ⟨b, s'', second⟩ => ⟨b, s'', first ++ second⟩

/-- Emit a report. -/
def report (d : δ) : Reporting σ δ Unit := fun s => ⟨(), s, [d]⟩

/-- Emit a report when the condition holds. -/
def reportIf (condition : Bool) (d : δ) : Reporting σ δ Unit :=
  if condition then report d else pure ()

/-- The current state. -/
def read : Reporting σ δ σ := fun s => ⟨s, s, []⟩

/-- Change the state. -/
def update (f : σ → σ) : Reporting σ δ Unit := fun s => ⟨(), f s, []⟩

/-- Run the action on every element, in order. -/
def forEach (f : α → Reporting σ δ β) : List α → Reporting σ δ (List β)
  | [] => pure []
  | a :: as => do
    let b ← f a
    let bs ← forEach f as
    pure (b :: bs)

/-- Nothing is reported from the state. -/
def Silent (x : Reporting σ δ α) (s : σ) : Prop := (x s).reports = []

theorem silent_bind {x : Reporting σ δ α} {f : α → Reporting σ δ β} {s : σ} :
    Silent (x >>= f) s ↔ Silent x s ∧ Silent (f (x s).value) (x s).state :=
  List.append_eq_nil_iff

theorem not_silent_report (d : δ) (s : σ) : ¬ Silent (report d : Reporting σ δ Unit) s :=
  fun h => nomatch h

theorem silent_reportIf {condition : Bool} {d : δ} {s : σ} :
    Silent (reportIf condition d : Reporting σ δ Unit) s ↔ condition = false := by
  cases condition with
  | false => exact ⟨fun _ => rfl, fun _ => rfl⟩
  | true => exact ⟨fun h => absurd h (not_silent_report d s), fun h => nomatch h⟩

@[simp] theorem bind_value (x : Reporting σ δ α) (f : α → Reporting σ δ β) (s : σ) :
    ((x >>= f) s).value = (f (x s).value (x s).state).value := rfl

@[simp] theorem bind_state (x : Reporting σ δ α) (f : α → Reporting σ δ β) (s : σ) :
    ((x >>= f) s).state = (f (x s).value (x s).state).state := rfl

@[simp] theorem pure_value (a : α) (s : σ) : ((pure a : Reporting σ δ α) s).value = a := rfl

@[simp] theorem pure_state (a : α) (s : σ) : ((pure a : Reporting σ δ α) s).state = s := rfl

/-! ## Parts of the state that stay -/

/-- The action leaves what `f` reads of the state alone. -/
def Preserves {τ : Type} (f : σ → τ) (x : Reporting σ δ α) : Prop := ∀ s, f (x s).state = f s

namespace Preserves

variable {τ : Type} {f : σ → τ}

@[simp] theorem pure (a : α) : Preserves f (Pure.pure a : Reporting σ δ α) := fun _ => rfl

@[simp] theorem read : Preserves f (Reporting.read : Reporting σ δ σ) := fun _ => rfl

@[simp] theorem report (d : δ) : Preserves f (Reporting.report d : Reporting σ δ Unit) :=
  fun _ => rfl

@[simp] theorem reportIf (condition : Bool) (d : δ) :
    Preserves f (Reporting.reportIf condition d : Reporting σ δ Unit) := by
  cases condition with
  | true => exact report d
  | false => exact pure ()

theorem update {g : σ → σ} (h : ∀ s, f (g s) = f s) :
    Preserves f (Reporting.update g : Reporting σ δ Unit) := h

@[simp] theorem bind {x : Reporting σ δ α} {g : α → Reporting σ δ β} (hx : Preserves f x)
    (hg : ∀ a, Preserves f (g a)) : Preserves f (x >>= g) := fun s => (hg _ _).trans (hx s)

theorem ite {condition : Prop} [Decidable condition] {x y : Reporting σ δ α}
    (hx : Preserves f x) (hy : Preserves f y) : Preserves f (if condition then x else y) := by
  split
  · exact hx
  · exact hy

theorem forEach {g : α → Reporting σ δ β} {as : List α} (h : ∀ a ∈ as, Preserves f (g a)) :
    Preserves f (Reporting.forEach g as) := by
  induction as with
  | nil => exact pure []
  | cons a as ih =>
    rw [List.forall_mem_cons] at h
    exact bind h.1 fun _ => bind (ih h.2) fun _ => pure _

end Preserves

/-! ## Invariants of the state -/

/-- The action keeps an invariant. -/
def Maintains (P : σ → Prop) (x : Reporting σ δ α) : Prop := ∀ s, P s → P (x s).state

namespace Maintains

variable {P : σ → Prop}

theorem pure (a : α) : Maintains P (Pure.pure a : Reporting σ δ α) := fun _ h => h

theorem bind {x : Reporting σ δ α} {g : α → Reporting σ δ β} (hx : Maintains P x)
    (hg : ∀ a, Maintains P (g a)) : Maintains P (x >>= g) := fun s h => hg _ _ (hx s h)

/-- An invariant of what the action leaves alone. -/
theorem of_preserves {τ : Type} {f : σ → τ} {x : Reporting σ δ α} (hx : Preserves f x)
    (h : ∀ s t, f t = f s → P s → P t) : Maintains P x := fun s => h s _ (hx s)

end Maintains

end Reporting

end Zeroshot
