import Zeroshot.Lib.Logged

set_option autoImplicit false

/-!
# Observed computations

An observed computation threads a state of its own through a logging computation. The state may
stop it early, with a failure no plain computation has.

`Follows P x y` says what is left of `x` when its observation is erased: from every state in `P`
the run of `x` ends in `P` with the value and the log of `y`, or in the failure of `y`, or it was
stopped somewhere along the log of `y`. Whether it may be stopped at all is the parameter `may`.
-/

namespace Zeroshot

/-- A computation on a state that logs and may fail. -/
def Observed (σ ω φ α : Type) : Type := σ → Logged ω φ (α × σ)

namespace Observed

variable {σ ω ε φ α β : Type}

instance : Monad (Observed σ ω φ) where
  pure a := fun s => pure (a, s)
  bind x f := fun s => x s >>= fun r => f r.1 r.2

/-- A plain computation, its failures renamed. -/
def plain (embed : ε → φ) (x : Logged ω ε α) : Observed σ ω φ α := fun s =>
  match x.result with
  | .ok a => ⟨x.log, .ok (a, s)⟩
  | .error e => ⟨x.log, .error (embed e)⟩

/-- Run `f` on every element from left to right. -/
def forEach (f : α → Observed σ ω φ β) : List α → Observed σ ω φ (List β)
  | [] => pure []
  | a :: as => do
    let b ← f a
    let bs ← forEach f as
    pure (b :: bs)

/-- A run against the plain one: the same value and log, the same failure, or a stop on the way. -/
inductive Agrees (embed : ε → φ) (stop : φ) (may : Prop) (P : σ → Prop) :
    Logged ω φ (α × σ) → Logged ω ε α → Prop
  | returned {log : List ω} {a : α} {s : σ} (h : P s) :
      Agrees embed stop may P ⟨log, .ok (a, s)⟩ ⟨log, .ok a⟩
  | failed {log : List ω} {e : ε} :
      Agrees embed stop may P ⟨log, .error (embed e)⟩ ⟨log, .error e⟩
  | stopped {log rest : List ω} {result : Except ε α} (h : may) :
      Agrees embed stop may P ⟨log, .error stop⟩ ⟨log ++ rest, result⟩

/-- `x` computes what `y` does, and keeps `P`. -/
def Follows (embed : ε → φ) (stop : φ) (may : Prop) (P : σ → Prop) (x : Observed σ ω φ α)
    (y : Logged ω ε α) : Prop :=
  ∀ s, P s → Agrees embed stop may P (x s) y

variable {embed : ε → φ} {stop : φ} {may : Prop} {P Q : σ → Prop}

theorem Agrees.mono {x : Logged ω φ (α × σ)} {y : Logged ω ε α} (h : Agrees embed stop may P x y)
    (hPQ : ∀ s, P s → Q s) : Agrees embed stop may Q x y := by
  cases h with
  | returned h => exact .returned (hPQ _ h)
  | failed => exact .failed
  | stopped h => exact .stopped h

/-- A bind after a value is known. -/
theorem ok_bind (first : List ω) (a : α) (f : α → Logged ω ε β) :
    ((⟨first, .ok a⟩ : Logged ω ε α) >>= f) = ⟨first ++ (f a).log, (f a).result⟩ := rfl

/-- Logging first does not change an agreement. -/
theorem Agrees.after {first : List ω} {a : α} {s : σ} {f : α × σ → Logged ω φ (β × σ)}
    {g : α → Logged ω ε β} (h : Agrees embed stop may P (f (a, s)) (g a)) :
    Agrees embed stop may P ((⟨first, .ok (a, s)⟩ : Logged ω φ (α × σ)) >>= f)
      ((⟨first, .ok a⟩ : Logged ω ε α) >>= g) := by
  rw [ok_bind, ok_bind]
  revert h
  generalize f (a, s) = x
  generalize g a = y
  intro h
  cases h with
  | returned h => exact .returned h
  | failed => exact .failed
  | stopped h =>
    dsimp only
    rw [← List.append_assoc]
    exact .stopped h

namespace Follows

theorem pure (a : α) : Follows embed stop may P (Pure.pure a : Observed σ ω φ α) (Pure.pure a) :=
  fun _ h => .returned h

theorem plain (x : Logged ω ε α) : Follows embed stop may P (Observed.plain embed x) x := by
  intro s h
  obtain ⟨log, result⟩ := x
  cases result with
  | ok a => exact .returned h
  | error e => exact .failed

theorem bind {x : Observed σ ω φ α} {y : Logged ω ε α} {f : α → Observed σ ω φ β}
    {g : α → Logged ω ε β} (hx : Follows embed stop may P x y)
    (hf : ∀ a, Follows embed stop may P (f a) (g a)) :
    Follows embed stop may P (x >>= f) (y >>= g) := by
  intro s hs
  change Agrees embed stop may P (x s >>= fun r => f r.1 r.2) (y >>= g)
  have h := hx s hs
  revert h
  generalize x s = run
  intro h
  cases h with
  | @returned log a s' h => exact .after (hf a s' h)
  | failed => exact .failed
  | @stopped log rest result h =>
    -- Whatever follows only lengthens the plain log.
    cases result with
    | error e => exact .stopped h
    | ok a =>
      change Agrees embed stop may P ⟨log, .error stop⟩ _
      rw [ok_bind, List.append_assoc]
      exact .stopped h

/-- What follows is observation only. -/
theorem observing {x : Observed σ ω φ α} {y : Logged ω ε α} {f : α → Observed σ ω φ α}
    (hx : Follows embed stop may P x y) (hf : ∀ a, Follows embed stop may P (f a) (Pure.pure a)) :
    Follows embed stop may P (x >>= f) y := by
  have hbind : (y >>= Pure.pure) = y := by
    obtain ⟨log, result⟩ := y
    cases result with
    | error e => rfl
    | ok a =>
      rw [ok_bind]
      exact congrArg (fun log => Logged.mk log (.ok a)) (List.append_nil log)
  exact hbind ▸ hx.bind hf

/-- A step the plain computation does not have. -/
theorem step {x : Observed σ ω φ α} {f : α → Observed σ ω φ β} {y : Logged ω ε β}
    (h : ∀ s, P s → (may ∧ x s = ⟨[], .error stop⟩) ∨ ∃ (a : α) (s' : σ) (Q : σ → Prop),
      x s = ⟨[], .ok (a, s')⟩ ∧ Q s' ∧ (∀ s, Q s → P s) ∧ Follows embed stop may Q (f a) y) :
    Follows embed stop may P (x >>= f) y := by
  intro s hs
  change Agrees embed stop may P (x s >>= fun r => f r.1 r.2) y
  rcases h s hs with ⟨hmay, hx⟩ | ⟨a, s', Q, hx, hs', hQ, hf⟩
  · rw [hx]
    exact .stopped hmay
  · rw [hx]
    exact (hf s' hs').mono hQ

theorem forEach {f : α → Observed σ ω φ β} {g : α → Logged ω ε β} {as : List α}
    (h : ∀ a ∈ as, Follows embed stop may P (f a) (g a)) :
    Follows embed stop may P (Observed.forEach f as) (Logged.forEach g as) := by
  induction as with
  | nil => exact .pure []
  | cons a as ih =>
    rw [List.forall_mem_cons] at h
    exact h.1.bind fun b => (ih h.2).bind fun bs => .pure (b :: bs)

end Follows

end Observed

end Zeroshot
