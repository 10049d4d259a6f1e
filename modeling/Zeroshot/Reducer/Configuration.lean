import Zeroshot.Reducer.Positions

set_option autoImplicit false

/-!
# Engines with one configuration

What an evaluation computes from the facts collected at the root is the same for two engines that
agree on them, whatever their executions.
-/

namespace Zeroshot

/-- The engines collected the same facts from the root. -/
structure Configured (engine engine' : Engine) : Prop where
  mapDepths : engine.mapDepths = engine'.mapDepths
  optionalPromotions : engine.optionalPromotions = engine'.optionalPromotions

namespace Configured

open Engine

variable {engine engine' : Engine} (h : Configured engine engine')
include h

theorem controlValues : engine.controlValues = engine'.controlValues := by
  funext selector context mapIndices
  rw [Engine.controlValues, Engine.controlValues, h.mapDepths]

theorem selectorIn : engine.selectorIn = engine'.selectorIn := by
  funext context mapIndices labels selector
  rw [Engine.selectorIn, Engine.selectorIn, h.controlValues]

theorem guard_eq (context : Context) (mapIndices : List Nat) (guard : Guard) :
    engine.guard context mapIndices guard = engine'.guard context mapIndices guard := by
  refine @Guard.rec
    (fun guard => engine.guard context mapIndices guard = engine'.guard context mapIndices guard)
    (fun guards =>
      engine.guardAll context mapIndices guards = engine'.guardAll context mapIndices guards ∧
      engine.guardAny context mapIndices guards = engine'.guardAny context mapIndices guards)
    ?_ ?_ ?_ ?_ ?_ ?_ ?_ ?_ guard
  · intro value labels
    rw [Engine.guard, Engine.guard, h.selectorIn]
  · intro guards ih
    rw [Engine.guard, Engine.guard, ih.1]
  · intro guards ih
    rw [Engine.guard, Engine.guard, ih.2]
  · intro guard ih
    rw [Engine.guard, Engine.guard, ih]
  · intro count values labels
    rw [Engine.guard, Engine.guard, h.selectorIn]
  · intro count value labels
    rw [Engine.guard, Engine.guard, h.controlValues]
  · exact ⟨rfl, rfl⟩
  · intro guard guards ih ihs
    constructor
    · rw [Engine.guardAll, Engine.guardAll, ih, ihs.1]
    · rw [Engine.guardAny, Engine.guardAny, ih, ihs.2]

theorem guard : engine.guard = engine'.guard := by
  funext context mapIndices guard
  exact h.guard_eq context mapIndices guard

theorem setControl : engine.setControl = engine'.setControl := by
  funext node source field label mapIndices context
  rw [Engine.setControl, Engine.setControl, h.mapDepths]

theorem setGroupControl : engine.setGroupControl = engine'.setGroupControl := by
  funext node field label mapIndices context
  rw [Engine.setGroupControl, Engine.setGroupControl, h.setControl]

theorem optionalPathsOf : engine.optionalPathsOf = engine'.optionalPathsOf := by
  funext node
  rw [Engine.optionalPathsOf, Engine.optionalPathsOf, h.optionalPromotions]

theorem promoted : engine.promoted = engine'.promoted := by
  funext node paths local' parent
  rw [Engine.promoted, Engine.promoted, h.optionalPathsOf]

theorem closeSequence : engine.closeSequence = engine'.closeSequence := by
  funext group context status local'
  cases status <;> simp only [Engine.closeSequence, h.promoted]

theorem closeChoice : engine.closeChoice = engine'.closeChoice := by
  funext group context status local'
  cases status <;> simp only [Engine.closeChoice, h.promoted]

theorem closeLoop : engine.closeLoop = engine'.closeLoop := by
  funext group names mapIndices context exit
  cases exit <;> simp only [Engine.closeLoop, h.promoted, h.setGroupControl]

theorem closeMap : engine.closeMap = engine'.closeMap := by
  funext group body mapIndices results context
  rw [Engine.closeMap, Engine.closeMap, h.promoted, h.setGroupControl]

theorem recordParallelControl : engine.recordParallelControl = engine'.recordParallelControl := by
  funext group join reached mapIndices context
  cases join <;> simp only [Engine.recordParallelControl, h.setGroupControl]

theorem joinedContext : engine.joinedContext = engine'.joinedContext := by
  funext group join mapIndices context joined
  rw [Engine.joinedContext, Engine.joinedContext, h.recordParallelControl]

theorem satisfiesJoin : engine.satisfiesJoin = engine'.satisfiesJoin := by
  funext join mapIndices branch
  cases join <;> simp only [Engine.satisfiesJoin, h.guard]

theorem parallelCompletions : engine.parallelCompletions = engine'.parallelCompletions := by
  funext join mapIndices start probes
  induction probes generalizing start with
  | nil => rfl
  | cons probe probes ih =>
    obtain ⟨status, c⟩ := probe
    cases status <;> simp only [Engine.parallelCompletions, ih, h.satisfiesJoin]

theorem completions : engine.completions = engine'.completions := by
  funext join mapIndices probes
  rw [Engine.completions, Engine.completions, h.parallelCompletions]

theorem selectNode : engine.selectNode = engine'.selectNode := by
  funext context mapIndices branches otherwise
  rw [Engine.selectNode, Engine.selectNode, h.guard]

theorem setSignals : engine.setSignals = engine'.setSignals := by
  funext name mapIndices signals context
  induction signals generalizing context with
  | nil => rfl
  | cons entry signals ih =>
    rw [Engine.setSignals, Engine.setSignals, ih, h.setControl]

theorem applyOutcome : engine.applyOutcome = engine'.applyOutcome := by
  funext spec mapIndices outcome context
  cases outcome <;> simp only [Engine.applyOutcome, h.setControl, h.setSignals]

theorem leafResult : engine.leafResult = engine'.leafResult := by
  funext spec mapIndices outcome context
  cases outcome <;> simp only [Engine.leafResult, h.applyOutcome]

end Configured

end Zeroshot
