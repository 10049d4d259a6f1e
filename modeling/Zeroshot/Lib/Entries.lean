import Zeroshot.Lib.Logged

set_option autoImplicit false

/-!
# What a computation may log

`Entries P x` says that `x` logs only entries that satisfy `P`, whether it succeeds or fails; there
is one rule for each operation. `log_bind` splits the log of a sequence of two computations.
-/

namespace Zeroshot.Logged

variable {ω ε α β : Type}

/-- The second computation runs when the first one succeeds. -/
theorem log_bind (x : Logged ω ε α) (f : α → Logged ω ε β) :
    (∃ e, x.result = .error e ∧ (x >>= f).log = x.log) ∨
      ∃ a, x.Returns a x.log ∧ (x >>= f).log = x.log ++ (f a).log := by
  obtain ⟨log, result⟩ := x
  cases result with
  | error e => exact .inl ⟨e, rfl, rfl⟩
  | ok a => exact .inr ⟨a, rfl, rfl⟩

theorem mem_log_bind {x : Logged ω ε α} {f : α → Logged ω ε β} {w : ω} (h : w ∈ (x >>= f).log) :
    w ∈ x.log ∨ ∃ a, x.Returns a x.log ∧ w ∈ (f a).log := by
  rcases log_bind x f with ⟨e, -, hlog⟩ | ⟨a, ha, hlog⟩
  · rw [hlog] at h
    exact .inl h
  · rw [hlog] at h
    exact (List.mem_append.mp h).imp id fun h => ⟨a, ha, h⟩

/-- Every logged entry satisfies `P`. -/
def Entries (P : ω → Prop) (x : Logged ω ε α) : Prop := ∀ w ∈ x.log, P w

namespace Entries

variable {P : ω → Prop}

theorem pure (a : α) : Entries P (Pure.pure a : Logged ω ε α) := fun _ h => by cases h

theorem fail (e : ε) : Entries P (Logged.fail e : Logged ω ε α) := fun _ h => by cases h

theorem lift (r : Except ε α) : Entries P (Logged.lift r : Logged ω ε α) := fun _ h => by cases h

theorem emit {entry : ω} (h : P entry) : Entries P (Logged.emit entry : Logged ω ε Unit) := by
  intro w hw
  cases List.mem_singleton.mp hw
  exact h

theorem emitAll {entries : List ω} (h : ∀ w ∈ entries, P w) :
    Entries P (Logged.emitAll entries : Logged ω ε Unit) := h

theorem not_mem {x : Logged ω ε α} {w : ω} (h : Entries (fun entry => entry ≠ w) x) : w ∉ x.log :=
  fun hw => h w hw rfl

theorem bind {x : Logged ω ε α} {f : α → Logged ω ε β} (hx : Entries P x)
    (hf : ∀ a, Entries P (f a)) : Entries P (x >>= f) := by
  intro w hw
  rcases mem_log_bind hw with hw | ⟨a, -, hw⟩
  · exact hx w hw
  · exact hf a w hw

theorem forEach {f : α → Logged ω ε β} {as : List α} (h : ∀ a ∈ as, Entries P (f a)) :
    Entries P (Logged.forEach f as) := by
  induction as with
  | nil => exact .pure []
  | cons a as ih =>
    rw [List.forall_mem_cons] at h
    exact .bind h.1 fun b => .bind (ih h.2) fun bs => .pure (b :: bs)

end Entries

/-- What a loop logs comes from the run of one element. -/
theorem mem_log_forEach {f : α → Logged ω ε β} {as : List α} {w : ω}
    (h : w ∈ (forEach f as).log) : ∃ a ∈ as, w ∈ (f a).log :=
  Entries.forEach (P := fun w => ∃ a ∈ as, w ∈ (f a).log) (fun a ha _ hw => ⟨a, ha, hw⟩) w h

end Zeroshot.Logged
