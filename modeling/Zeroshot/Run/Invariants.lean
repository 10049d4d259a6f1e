import Mathlib.Data.List.Pairwise
import Zeroshot.Run.History
import Zeroshot.Verifier.Accepted

set_option autoImplicit false

/-!
# Invariants of runs

One event either records dispatches, settles an active execution or voids one (`applyEvent_cases`),
and a property of the empty history that every event keeps holds of every reachable history
(`Reachable.induct`). In a reachable history identities are distinct, dispatches are in order, and
an execution ends after it starts.
-/

namespace Zeroshot

/-! ## What an event does -/

theorem isAfter_iff {executions : List DurableExecution} {position : HistoryPosition} :
    isAfter executions position = true ↔ After executions position := by
  simp only [isAfter, List.all_eq_true, decide_eq_true_eq]
  rfl

/-- The history grows by active executions the decisions ask for, each at a later position. -/
inductive Recorded (decisions : List Decision) :
    List DurableExecution → List DurableExecution → Prop
  | refl (executions : List DurableExecution) : Recorded decisions executions executions
  | record {executions executions' : List DurableExecution} {e : DurableExecution}
      (decided : dispatchedAs decisions e.execution e.dispatchPosition = some e)
      (after : After executions e.dispatchPosition)
      (fresh : ∀ other ∈ executions, other.execution ≠ e.execution)
      (rest : Recorded decisions (executions ++ [e]) executions') :
      Recorded decisions executions executions'

theorem recordedAt_eq_some {position : HistoryPosition} {decision : Decision}
    {e : DurableExecution} (h : recordedAt position decision = some e) :
    e.dispatchPosition = position ∧ e.state = .active ∧ ∃ iteration worker,
      decision = .dispatch e.nodeInstance e.execution e.occurrence e.attempt iteration worker
        e.input := by
  cases decision with
  | dispatch =>
    cases h
    exact ⟨rfl, rfl, _, _, rfl⟩
  | voidLoser | continues | promote | terminal => cases h

theorem dispatchedAs_eq_some {decisions : List Decision} {execution : ExecutionId}
    {position : HistoryPosition} {e : DurableExecution}
    (h : dispatchedAs decisions execution position = some e) :
    e.execution = execution ∧ e.dispatchPosition = position ∧ e.state = .active ∧
      ∃ iteration worker, Decision.dispatch e.nodeInstance e.execution e.occurrence e.attempt
        iteration worker e.input ∈ decisions := by
  have hexecution := List.find?_some h
  obtain ⟨decision, hmem, hrecorded⟩ := List.mem_filterMap.mp (List.mem_of_find?_eq_some h)
  obtain ⟨hposition, hactive, iteration, worker, rfl⟩ := recordedAt_eq_some hrecorded
  exact ⟨of_decide_eq_true hexecution, hposition, hactive, iteration, worker, hmem⟩

theorem recordDispatches_recorded {decisions : List Decision}
    {recorded : List (ExecutionId × HistoryPosition)}
    {executions executions' : List DurableExecution}
    (h : recordDispatches decisions recorded executions = some executions') :
    Recorded decisions executions executions' := by
  induction recorded generalizing executions with
  | nil =>
    cases h
    exact .refl _
  | cons entry recorded ih =>
    obtain ⟨execution, position⟩ := entry
    rw [recordDispatches] at h
    split at h
    · cases h
    · rename_i e hdecided
      split at h
      · rename_i hconditions
        rw [Bool.and_eq_true, isAfter_iff] at hconditions
        obtain ⟨rfl, rfl, -⟩ := dispatchedAs_eq_some hdecided
        refine .record hdecided hconditions.1 (fun other hother => ?_) (ih h)
        exact bne_iff_ne.mp (List.all_eq_true.mp hconditions.2 other hother)
      · cases h

theorem activeExecution_eq_some {executions : List DurableExecution} {execution : ExecutionId}
    {e : DurableExecution} (h : activeExecution executions execution = some e) :
    e ∈ executions ∧ e.execution = execution ∧ e.state = .active := by
  have hfound := List.find?_some h
  rw [Bool.and_eq_true] at hfound
  refine ⟨List.mem_of_find?_eq_some h, of_decide_eq_true hfound.1, ?_⟩
  have hactive : e.isActive = true := hfound.2
  unfold DurableExecution.isActive at hactive
  split at hactive
  · assumption
  · cases hactive

theorem voidReason_eq_some {decisions : List Decision} {execution : ExecutionId}
    {reason : ExecutionVoidReason} (h : voidReason decisions execution = some reason) :
    Decision.voidLoser execution reason ∈ decisions := by
  obtain ⟨decision, hmem, hreason⟩ := List.exists_of_findSome?_eq_some h
  cases decision with
  | voidLoser loser reason' =>
    dsimp only at hreason
    split at hreason
    · cases hreason
      subst loser
      exact hmem
    · cases hreason
  | dispatch | continues | promote | terminal => cases hreason

section

variable {gate : DispatchGate} {root : GraphNode} {initialInput : Value}
  {executions executions' : List DurableExecution}

/-- **The three kinds of events**: recorded dispatches, a settlement, a void. -/
theorem applyEvent_cases {event : RunEvent}
    (h : applyEvent gate root initialInput executions event = some executions') :
    (∃ reduction, reduceRun root initialInput executions = .ok reduction ∧
      gate.isOpen reduction = true ∧ Recorded reduction.decisions executions executions') ∨
    (∃ e ∈ executions, ∃ position outcome, e.state = .active ∧ After executions position ∧
      outcomeValidFor root e.occurrence.node outcome = true ∧
      executions' = finalize executions e.execution (.settled position outcome)) ∨
    (∃ reduction, reduceRun root initialInput executions = .ok reduction ∧
      ∃ e ∈ executions, ∃ position reason, e.state = .active ∧ After executions position ∧
      .voidLoser e.execution reason ∈ reduction.decisions ∧
      executions' = finalize executions e.execution (.voided position reason)) := by
  cases event with
  | dispatch recorded =>
    refine .inl ?_
    rw [applyEvent] at h
    split at h
    · cases h
    · rename_i reduction hreduce
      split at h
      · exact ⟨reduction, hreduce, ‹_›, recordDispatches_recorded h⟩
      · cases h
  | settle execution position outcome =>
    refine .inr (.inl ?_)
    rw [applyEvent] at h
    split at h
    · cases h
    · rename_i e hactive
      obtain ⟨hmem, rfl, hstate⟩ := activeExecution_eq_some hactive
      split at h
      · rename_i hconditions
        rw [Bool.and_eq_true, isAfter_iff] at hconditions
        cases h
        exact ⟨e, hmem, position, outcome, hstate, hconditions.1, hconditions.2, rfl⟩
      · cases h
  | void execution position =>
    refine .inr (.inr ?_)
    rw [applyEvent] at h
    split at h
    · cases h
    · rename_i reduction hreduce
      split at h
      · rename_i e reason hactive hreason
        obtain ⟨hmem, rfl, hstate⟩ := activeExecution_eq_some hactive
        split at h
        · rename_i hafter
          cases h
          exact ⟨reduction, hreduce, e, hmem, position, reason, hstate, isAfter_iff.mp hafter,
            voidReason_eq_some hreason, rfl⟩
        · cases h
      · cases h

theorem runEvents_induct {P : List DurableExecution → Prop}
    (hstep : ∀ {executions executions' event}, P executions →
      applyEvent gate root initialInput executions event = some executions' → P executions')
    {events : List RunEvent} (hstart : P executions)
    (h : runEvents gate root initialInput events executions = some executions') :
    P executions' := by
  induction events generalizing executions with
  | nil =>
    cases h
    exact hstart
  | cons event events ih =>
    rw [runEvents] at h
    split at h
    · cases h
    · exact ih (hstep hstart ‹_›) h

/-- **Induction over runs.** -/
theorem Reachable.induct {P : List DurableExecution → Prop} (hnil : P [])
    (hstep : ∀ {executions executions' event}, P executions →
      applyEvent gate root initialInput executions event = some executions' → P executions')
    (h : Reachable gate root initialInput executions) : P executions := by
  obtain ⟨events, hrun⟩ := h
  exact runEvents_induct hstep hnil hrun

end

/-! ## Well-formed histories -/

/-- Identities are distinct, dispatches are in order, and executions end after they start. -/
structure Timely (executions : List DurableExecution) : Prop where
  distinct : executions.Pairwise fun a b => a.execution ≠ b.execution
  inOrder : executions.Pairwise fun a b => a.dispatchPosition < b.dispatchPosition
  ends : ∀ e ∈ executions, ∀ p, e.finalPosition? = some p → e.dispatchPosition < p

theorem Timely.nil : Timely [] :=
  ⟨List.Pairwise.nil, List.Pairwise.nil, fun _ h => nomatch h⟩

theorem Timely.eq_of_execution {executions : List DurableExecution} (h : Timely executions)
    {a b : DurableExecution} (ha : a ∈ executions) (hb : b ∈ executions)
    (heq : a.execution = b.execution) : a = b := by
  by_contra hne
  have hsymm : Std.Symm fun a b : DurableExecution => a.execution ≠ b.execution :=
    ⟨fun _ _ hab => hab.symm⟩
  exact h.distinct.forall ha hb hne heq

theorem Timely.ordered {executions : List DurableExecution} (h : Timely executions) :
    Ordered executions := by
  intro e he p o hstate
  refine (h.ends e he p ?_).le
  rw [DurableExecution.finalPosition?, hstate]

theorem Recorded.timely {decisions : List Decision} {executions executions' : List DurableExecution}
    (hrecorded : Recorded decisions executions executions') (h : Timely executions) :
    Timely executions' := by
  induction hrecorded with
  | refl => exact h
  | @record executions executions' e decided after fresh _ ih =>
    obtain ⟨-, -, hactive, -⟩ := dispatchedAs_eq_some decided
    refine ih ⟨?_, ?_, ?_⟩
    · refine List.pairwise_append.mpr ⟨h.distinct, List.pairwise_singleton _ _, ?_⟩
      intro other hother _ he
      rw [List.mem_singleton.mp he]
      exact fresh other hother
    · refine List.pairwise_append.mpr ⟨h.inOrder, List.pairwise_singleton _ _, ?_⟩
      intro other hother _ he
      rw [List.mem_singleton.mp he]
      exact after other hother _ (dispatch_mem_positions other)
    · intro other hother p hp
      rcases List.mem_append.mp hother with hother | hother
      · exact h.ends other hother p hp
      · rw [List.mem_singleton.mp hother, DurableExecution.finalPosition?, hactive] at hp
        cases hp

/-- The state of an execution after `finalize`. -/
theorem mem_finalize {executions : List DurableExecution} {execution : ExecutionId}
    {state : DurableExecutionState} {e : DurableExecution}
    (h : e ∈ finalize executions execution state) :
    (e ∈ executions ∧ e.execution ≠ execution) ∨
      ∃ old ∈ executions, old.execution = execution ∧ e = { old with state } := by
  obtain ⟨old, hold, rfl⟩ := List.mem_map.mp h
  by_cases heq : old.execution = execution
  · exact .inr ⟨old, hold, heq, if_pos heq⟩
  · rw [if_neg heq]
    exact .inl ⟨hold, heq⟩

theorem finalize_timely {executions : List DurableExecution} {execution : ExecutionId}
    {state : DurableExecutionState} {position : HistoryPosition} (h : Timely executions)
    (hafter : After executions position)
    (hstate : ∀ e : DurableExecution,
      ({ e with state } : DurableExecution).finalPosition? = some position) :
    Timely (finalize executions execution state) := by
  have hkeeps : ∀ e : DurableExecution,
      (if e.execution = execution then { e with state } else e).execution = e.execution ∧
      (if e.execution = execution then { e with state } else e).dispatchPosition =
        e.dispatchPosition := by
    intro e
    split <;> exact ⟨rfl, rfl⟩
  refine ⟨?_, ?_, ?_⟩
  · refine List.pairwise_map.mpr (h.distinct.imp fun {a b} hab => ?_)
    rwa [(hkeeps a).1, (hkeeps b).1]
  · refine List.pairwise_map.mpr (h.inOrder.imp fun {a b} hab => ?_)
    rwa [(hkeeps a).2, (hkeeps b).2]
  · intro e he p hp
    rcases mem_finalize he with ⟨hold, -⟩ | ⟨old, hold, -, rfl⟩
    · exact h.ends e hold p hp
    · rw [hstate old] at hp
      cases hp
      exact hafter old hold _ (dispatch_mem_positions old)

section

variable {gate : DispatchGate} {root : GraphNode} {initialInput : Value}
  {executions executions' : List DurableExecution}

theorem applyEvent_timely {event : RunEvent} (htimely : Timely executions)
    (h : applyEvent gate root initialInput executions event = some executions') :
    Timely executions' := by
  obtain ⟨reduction, -, -, hrecorded⟩ | ⟨e, -, position, outcome, -, hafter, -, rfl⟩ |
    ⟨reduction, -, e, -, position, reason, -, hafter, -, rfl⟩ := applyEvent_cases h
  · exact hrecorded.timely htimely
  · exact finalize_timely htimely hafter fun _ => rfl
  · exact finalize_timely htimely hafter fun _ => rfl

/-- **Reachable histories are well formed.** -/
theorem Reachable.timely (h : Reachable gate root initialInput executions) : Timely executions :=
  h.induct Timely.nil applyEvent_timely

end

/-! ## Positions below the last -/

/-- No recorded position is the largest one. -/
def BelowMax (executions : List DurableExecution) : Prop :=
  ∀ e ∈ executions, ∀ p ∈ e.positions, p < HistoryPosition.max

instance (executions : List DurableExecution) : Decidable (BelowMax executions) :=
  decidable_of_iff
    ((executions.all fun e => e.positions.all fun p => p < HistoryPosition.max) = true)
    (by simp only [List.all_eq_true, decide_eq_true_eq, BelowMax])

/-- The engine of an ordered history, compared with itself at every level. -/
theorem selfFamily {engine : Engine} (hmode : engine.executionMode = .nativeV2)
    (hordered : Ordered engine.executions) (hbelow : BelowMax engine.executions) :
    EngineFamily False (fun _ => True) fun x => x = engine := by
  have halike : ∀ q, List.Forall₂ (AlikeUpTo q) engine.executions engine.executions := by
    intro q
    refine List.forall₂_same.mpr fun e he => ⟨rfl, rfl, rfl, rfl, fun outcome hearly => ?_⟩
    unfold early at hearly
    split at hearly
    · rename_i p o hstate
      split at hearly
      · exact (hordered e he p o hstate).trans ‹_›
      · cases hearly
    · cases hearly
    · cases hearly
  refine engineFamily_of_alikeUpTo ?_ ?_ ?_ (.inr fun _ _ => trivial)
  · rintro _ _ rfl rfl
    exact ⟨⟨rfl, rfl⟩, hmode, hmode⟩
  · rintro _ _ rfl rfl q -
    exact halike q
  · refine ⟨⟨2 ^ 63 - 2, by decide⟩, by decide, ?_⟩
    rintro _ rfl e he p o hstate
    exact lt_max_iff_le.mp (hbelow e he p (settled_mem_positions hstate))

end Zeroshot
