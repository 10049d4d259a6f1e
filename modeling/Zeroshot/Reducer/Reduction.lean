import Zeroshot.Reducer.Effects

set_option autoImplicit false

/-!
# Reductions

A reduction evaluates the root and performs the effects of that evaluation. This module splits a
successful reduction into those parts (`reduce_eq_ok`) and says where the decisions it returns come
from: a dispatch from a logged dispatch, a void from a logged scope.
-/

namespace Zeroshot

open Logged

/-! ## Successful reductions -/

theorem Engine.new_eq_ok {input : ReductionInput} {root : GraphNode} {mode : ExecutionMode}
    {engine : Engine} (h : Engine.new input root mode = .ok engine) :
    engine.executions = input.executions ∧ engine.mapDepths = collectMapDepths root ∧
      collectOptionalPromotions root.descendants [] = .ok engine.optionalPromotions ∧
      engine.executionMode = mode ∧ validateHistoryForMode input.executions mode = true ∧
      input.executions.all (executionAdmitted input (collectExecutableDepths root)) = true := by
  unfold Engine.new at h
  split at h
  · cases h
  rename_i hvalid
  split at h
  · cases h
  rename_i promotions hpromotions
  split at h
  · cases h
    refine ⟨rfl, rfl, hpromotions, rfl, ?_, ‹_›⟩
    simpa using hvalid
  · cases h

/-- **A successful reduction**: its engine, evaluation and progress. -/
theorem reduce_eq_ok {mode : ExecutionMode} {root : GraphNode} {input : ReductionInput}
    {reduction : Reduction} (h : reduce mode root input = .ok reduction) :
    ∃ engine status c log progress, Engine.new input root mode = .ok engine ∧
      (engine.walkRoot root input.initialInput).Returns (status, c) log ∧
      Progress.replay input.executions log (initialProgress input) = .ok progress ∧
      Progress.historyConsumed input.executions progress = true ∧
      reduction = finishReduction input.executions status progress := by
  simp only [reduce, except_bind_eq_ok] at h
  obtain ⟨engine, hengine, progress, hreplay, ⟨status, c⟩, hresult, h⟩ := h
  split at h
  case isTrue hconsumed =>
    cases h
    refine ⟨engine, status, c, _, progress, hengine, ?_, hreplay, hconsumed, rfl⟩
    rw [Returns, ← hresult]
  case isFalse => cases h

/-! ## Decisions -/

namespace Progress

def isDispatch : Decision → Bool
  | .dispatch _ _ _ _ _ _ _ => true
  | .voidLoser _ _ | .continues _ | .promote _ _ _ | .terminal _ => false

/-- No decision is a dispatch. -/
def Idle (decisions : List Decision) : Prop := ∀ d ∈ decisions, isDispatch d = false

theorem Idle.push {progress : Progress} (h : Idle progress.decisions) {d : Decision}
    (hd : isDispatch d = false) : Idle (push d progress).decisions := by
  intro d' hmem
  rcases List.mem_append.mp hmem with hmem | hmem
  · exact h d' hmem
  · rw [List.mem_singleton.mp hmem]
    exact hd

theorem voidLoser_idle {scope : VoidScope} {e : DurableExecution} {progress : Progress}
    (h : Idle progress.decisions) : Idle (voidLoser scope e progress).decisions := by
  unfold voidLoser pushVoidDecision
  dsimp only
  split
  · split
    · exact h
    · exact @Idle.push (recordVoidCutoff _ _ progress).2 h _ rfl
  · exact h

theorem voidLosers_idle {executions : List DurableExecution} {scope : VoidScope}
    {progress : Progress} (h : Idle progress.decisions) :
    Idle (voidLosers executions scope progress).decisions := by
  unfold voidLosers
  generalize (executions.filter (isLoser progress scope)).insertionSort loserBefore = losers
  induction losers generalizing progress with
  | nil => exact h
  | cons e losers ih => exact ih (voidLoser_idle h)

/-- A log that asks for no dispatch adds none. -/
theorem replay_idle {executions : List DurableExecution} {log : List Effect}
    {progress progress' : Progress} (hlog : NoDispatch log)
    (hreports : ∀ d, Effect.decision d ∈ log → isDispatch d = false)
    (h : replay executions log progress = .ok progress') (hidle : Idle progress.decisions) :
    Idle progress'.decisions := by
  induction log generalizing progress with
  | nil =>
    cases h
    exact hidle
  | cons effect log ih =>
    simp only [replay, except_bind_eq_ok] at h
    obtain ⟨middle, hmiddle, hrest⟩ := h
    refine ih (fun request hmem => hlog request (List.mem_cons_of_mem _ hmem))
      (fun d hmem => hreports d (List.mem_cons_of_mem _ hmem)) hrest ?_
    cases effect with
    | visit visit =>
      cases hmiddle
      exact hidle
    | dispatch request => exact absurd List.mem_cons_self (hlog request)
    | void scope =>
      cases hmiddle
      exact voidLosers_idle hidle
    | joined record =>
      cases hmiddle
      exact hidle
    | itemTerminated record =>
      cases hmiddle
      exact hidle
    | decision d =>
      cases hmiddle
      exact hidle.push (hreports d List.mem_cons_self)

theorem mem_of_mem_uniqueVoids {seen : List ExecutionId} {decisions : List Decision}
    {d : Decision} (h : d ∈ uniqueVoids seen decisions) : d ∈ decisions := by
  induction decisions generalizing seen with
  | nil => exact h
  | cons first decisions ih =>
    cases first with
    | voidLoser execution reason =>
      rw [uniqueVoids] at h
      split at h
      · exact List.mem_cons_of_mem _ (ih h)
      · rcases List.mem_cons.mp h with rfl | h
        · exact List.mem_cons_self
        · exact List.mem_cons_of_mem _ (ih h)
    | dispatch | continues | promote | terminal =>
      rw [uniqueVoids] at h
      · rcases List.mem_cons.mp h with rfl | h
        · exact List.mem_cons_self
        · exact List.mem_cons_of_mem _ (ih h)
      · intro _ _ hne
        cases hne

theorem mem_of_mem_fillSlots {decisions sorted : List Decision} {d : Decision}
    (h : d ∈ fillSlots decisions sorted) : d ∈ decisions ∨ d ∈ sorted := by
  induction decisions generalizing sorted with
  | nil => exact .inl h
  | cons first decisions ih =>
    simp only [fillSlots] at h
    split at h
    · split at h
      · rcases List.mem_cons.mp h with rfl | h
        · exact .inl List.mem_cons_self
        · exact (ih h).imp (List.mem_cons_of_mem _) id
      · rcases List.mem_cons.mp h with rfl | h
        · exact .inr List.mem_cons_self
        · exact (ih h).imp (List.mem_cons_of_mem _) (List.mem_cons_of_mem _)
    · rcases List.mem_cons.mp h with rfl | h
      · exact .inl List.mem_cons_self
      · exact (ih h).imp (List.mem_cons_of_mem _) id

/-- Canonicalizing adds no decision. -/
theorem mem_of_mem_canonicalize {executions : List DurableExecution} {decisions : List Decision}
    {d : Decision} (h : d ∈ canonicalizeVoidDecisions executions decisions) : d ∈ decisions := by
  rcases mem_of_mem_fillSlots h with h | h
  · exact mem_of_mem_uniqueVoids h
  · rw [List.mem_insertionSort] at h
    exact mem_of_mem_uniqueVoids (List.mem_of_mem_filter h)

end Progress

end Zeroshot
