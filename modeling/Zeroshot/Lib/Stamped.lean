import Mathlib.Data.List.Basic

set_option autoImplicit false

/-!
# Stamped outputs

A computation that works through numbered events appends outputs that carry the number of their
event. A page selects the outputs of a range of numbers; what is appended behind the range does not
change it, and the pages of consecutive ranges are the page of the whole range when the stamps are
in order.

`Frames` is the frame rule of computations that update a state in place and may fail: it relates
the state before to the state after, whether the computation returns or fails.
-/

namespace Zeroshot

/-! ## Pages of a range -/

section

variable {ω : Type} {start middle stop : Nat} {outputs more : List (Nat × ω)}

/-- The outputs stamped after `start` and up to `stop`. -/
def stampedBetween (start stop : Nat) (outputs : List (Nat × ω)) : List ω :=
  (outputs.filter fun entry => decide (start < entry.1) && decide (entry.1 ≤ stop)).map Prod.snd

/-- Outputs behind the range do not change its page. -/
theorem stampedBetween_append_later (h : ∀ entry ∈ more, stop < entry.1) :
    stampedBetween start stop (outputs ++ more) = stampedBetween start stop outputs := by
  have hnone : more.filter (fun entry => decide (start < entry.1) && decide (entry.1 ≤ stop)) =
      [] := by
    refine List.filter_eq_nil_iff.mpr fun entry hentry => ?_
    have hlater := h entry hentry
    simp only [Bool.and_eq_true, decide_eq_true_eq]
    omega
  rw [stampedBetween, stampedBetween, List.filter_append, hnone, List.append_nil]

/-- The pages of two consecutive ranges are the page of both. -/
theorem stampedBetween_append (hstart : start ≤ middle) (hstop : middle ≤ stop)
    (hsorted : outputs.Pairwise fun first second => first.1 ≤ second.1) :
    stampedBetween start middle outputs ++ stampedBetween middle stop outputs =
      stampedBetween start stop outputs := by
  rw [stampedBetween, stampedBetween, stampedBetween, ← List.map_append]
  congr 1
  induction outputs with
  | nil => rfl
  | cons entry outputs ih =>
    obtain ⟨hfirst, hrest⟩ := List.pairwise_cons.mp hsorted
    by_cases hmiddle : entry.1 ≤ middle
    · -- the entry is in the first page or in none
      have hskip : ¬(decide (middle < entry.1) && decide (entry.1 ≤ stop)) = true := by
        simp only [Bool.and_eq_true, decide_eq_true_eq]
        omega
      have hsame : (decide (start < entry.1) && decide (entry.1 ≤ middle)) =
          (decide (start < entry.1) && decide (entry.1 ≤ stop)) := by
        rw [decide_eq_true hmiddle, decide_eq_true (Nat.le_trans hmiddle hstop)]
      rw [List.filter_cons, List.filter_cons, List.filter_cons, hsame, if_neg hskip]
      split
      · rw [List.cons_append, ih hrest]
      · exact ih hrest
    · -- from here on the first page has nothing
      have hnone : (entry :: outputs).filter
          (fun entry => decide (start < entry.1) && decide (entry.1 ≤ middle)) = [] := by
        refine List.filter_eq_nil_iff.mpr fun other hother => ?_
        simp only [Bool.and_eq_true, decide_eq_true_eq]
        rcases List.mem_cons.mp hother with rfl | hother
        · omega
        · have := hfirst other hother
          omega
      rw [hnone, List.nil_append]
      refine List.filter_congr fun other hother => ?_
      have hlater : middle < other.1 := by
        rcases List.mem_cons.mp hother with rfl | hother
        · omega
        · have := hfirst other hother
          omega
      rw [decide_eq_true hlater, decide_eq_true (Nat.lt_of_le_of_lt hstart hlater)]

end

/-! ## Frames -/

section

variable {ε σ α β : Type}

/-- The state a computation leaves, also when it fails. -/
def leaves (result : EStateM.Result ε σ α) : σ :=
  match result with
  | .ok _ s => s
  | .error _ s => s

/-- The computation leaves a state related to the one it found. -/
def Frames (R : σ → σ → Prop) (x : EStateM ε σ α) : Prop := ∀ s, R s (leaves (x s))

variable {R : σ → σ → Prop}

theorem Frames.pure (hrefl : ∀ s, R s s) (a : α) : Frames R (pure a : EStateM ε σ α) := hrefl

theorem Frames.throw (hrefl : ∀ s, R s s) (e : ε) : Frames R (throw e : EStateM ε σ α) := hrefl

theorem Frames.get (hrefl : ∀ s, R s s) : Frames R (get : EStateM ε σ σ) := hrefl

theorem Frames.modify {f : σ → σ} (h : ∀ s, R s (f s)) :
    Frames R (modify f : EStateM ε σ PUnit) := h

theorem Frames.bind (htrans : ∀ s t u, R s t → R t u → R s u) {x : EStateM ε σ α}
    {f : α → EStateM ε σ β} (hx : Frames R x) (hf : ∀ a, Frames R (f a)) :
    Frames R (x >>= f) := by
  intro s
  have hfirst := hx s
  change R s (leaves (EStateM.bind x f s))
  unfold EStateM.bind
  cases hresult : x s with
  | ok a t =>
    rw [hresult] at hfirst
    exact htrans s t _ hfirst (hf a t)
  | error e t =>
    rw [hresult] at hfirst
    exact hfirst

end

end Zeroshot
