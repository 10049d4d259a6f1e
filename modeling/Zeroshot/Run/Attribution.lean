import Zeroshot.Reducer.Freshness
import Zeroshot.Run.Invariants

set_option autoImplicit false

/-!
# Attribution

Which executions a visit takes. The reducer numbers the visits of an occurrence from the counters
that survive in the evaluation context, and takes the executions of that number. A counter is kept
only where contexts are merged: a branch that does not win its join loses its counters, so the next
iteration of an enclosing loop starts again from the old number and takes an execution of an
earlier iteration.

Without such a branch inside a loop that repeats (`raceFreeLoops`), visits of different iterations
take different executions.
-/

namespace Zeroshot

/-! ## Executions of a visit -/

theorem visitNumber_eq {executions : List DurableExecution}
    (hdistinct : executions.Pairwise fun a b => a.execution ≠ b.execution)
    {number number' visit : Nat}
    {e e' : DurableExecution} (he : e ∈ Engine.nativeVisitExecutions number visit executions)
    (he' : e' ∈ Engine.nativeVisitExecutions number' visit executions)
    (heq : e.execution = e'.execution) : number = number' := by
  induction executions generalizing visit with
  | nil => cases he
  | cons first executions ih =>
    obtain ⟨hfirst, hrest⟩ := List.pairwise_cons.mp hdistinct
    have hmem : ∀ {n v x}, x ∈ Engine.nativeVisitExecutions n v executions → x ∈ executions :=
      fun hx => Engine.mem_of_mem_nativeVisitExecutions hx
    simp only [Engine.nativeVisitExecutions] at he he'
    generalize (if first.attempt.get = 1 then visit + 1 else visit) = next at he he'
    -- the first execution belongs to one number, and to no later visit
    by_cases hn : next = number
    · by_cases hn' : next = number'
      · exact hn.symm.trans hn'
      · rw [if_pos hn] at he
        rw [if_neg hn'] at he'
        rcases List.mem_cons.mp he with rfl | he
        · exact absurd heq (hfirst e' (hmem he'))
        · exact ih hrest he he'
    · rw [if_neg hn] at he
      by_cases hn' : next = number'
      · rw [if_pos hn'] at he'
        rcases List.mem_cons.mp he' with rfl | he'
        · exact absurd heq.symm (hfirst e (hmem he))
        · exact ih hrest he he'
      · rw [if_neg hn'] at he'
        exact ih hrest he he'

theorem Timely.number_eq {engine : Engine} (h : Timely engine.executions)
    {occurrence : StructuralOccurrence} {number number' : Nat} {execution : ExecutionId}
    (he : execution ∈ (engine.visitExecutions occurrence number).map DurableExecution.execution)
    (he' : execution ∈ (engine.visitExecutions occurrence number').map
      DurableExecution.execution) : number = number' := by
  obtain ⟨e, hmem, rfl⟩ := List.mem_map.mp he
  obtain ⟨e', hmem', heq⟩ := List.mem_map.mp he'
  have hsymm : ∀ {x y : DurableExecution}, x.execution ≠ y.execution → y.execution ≠ x.execution :=
    fun h => h.symm
  have hdistinct : (sortByDispatch (matching engine.executions occurrence)).Pairwise
      fun a b => a.execution ≠ b.execution := by
    refine (List.perm_insertionSort dispatchedBefore _).symm.pairwise ?_ hsymm
    exact h.distinct.sublist List.filter_sublist
  exact visitNumber_eq hdistinct hmem hmem' heq.symm

/-! ## Visits of a reduction -/

/-- The visits of the reduction of a history, in the order they are made. -/
def reductionVisits (root : GraphNode) (initialInput : Value)
    (executions : List DurableExecution) : List Visit :=
  match Engine.new (runInput initialInput executions) root .nativeV2 with
  | .error _ => []
  | .ok engine => (engine.walkRoot root initialInput).log.filterMap fun effect =>
      match effect with
      | .visit v => some v
      | .dispatch _ | .void _ | .joined _ | .itemTerminated _ | .decision _ => none

/-- Visits of one node and item in different iterations take different executions. -/
def VisitsDisjoint (visits : List Visit) : Prop :=
  ∀ v ∈ visits, ∀ v' ∈ visits, v.occurrence = v'.occurrence →
    v.loopIterations ≠ v'.loopIterations → ∀ e ∈ v.executions, e ∉ v'.executions

instance (visits : List Visit) : Decidable (VisitsDisjoint visits) :=
  inferInstanceAs (Decidable (∀ v ∈ visits, ∀ v' ∈ visits, v.occurrence = v'.occurrence →
    v.loopIterations ≠ v'.loopIterations → ∀ e ∈ v.executions, e ∉ v'.executions))

theorem mem_reductionVisits {root : GraphNode} {initialInput : Value}
    {executions : List DurableExecution} {engine : Engine}
    (hnew : Engine.new (runInput initialInput executions) root .nativeV2 = .ok engine) {v : Visit} :
    v ∈ reductionVisits root initialInput executions ↔
      .visit v ∈ (engine.walkRoot root initialInput).log := by
  simp only [reductionVisits, hnew]
  constructor
  · intro h
    obtain ⟨effect, hmem, heffect⟩ := List.mem_filterMap.mp h
    cases effect <;> cases heffect
    exact hmem
  · intro h
    exact List.mem_filterMap.mpr ⟨_, h, rfl⟩

/-- **Visit freshness.** In a run of an accepted graph whose repeated loops leave no branch behind,
a reduction attributes every execution to one iteration, whether it succeeds or fails. -/
theorem reachable_visitsDisjoint (registry : WorkerRegistry) (graph : GraphSpec)
    (initialInput : Value) (executions : List DurableExecution)
    (hverified : Verified registry graph) (hraces : graph.root.raceFreeLoops = true)
    (hreachable : Reachable .anyTime graph.root initialInput executions)
    (hbelow : BelowMax executions) :
    VisitsDisjoint (reductionVisits graph.root initialInput executions) := by
  intro v hv v' hv' hoccurrence hiterations e he he'
  cases hnew : Engine.new (runInput initialInput executions) graph.root .nativeV2 with
  | error failure =>
    simp only [reductionVisits, hnew] at hv
    cases hv
  | ok engine =>
    rw [mem_reductionVisits hnew] at hv hv'
    obtain ⟨hexecutions, -, -, hmode, -⟩ := Engine.new_eq_ok hnew
    have hexecutions : engine.executions = executions := hexecutions
    have htimely : Timely engine.executions := hexecutions ▸ hreachable.timely
    have hfamily := selfFamily hmode htimely.ordered (hexecutions ▸ hbelow)
    have hbound : Engine.LeafBound engine rootTraversal.cutoff HistoryPosition.max :=
      fun _ _ _ _ p _ _ _ => HistoryPosition.le_max p
    have hfresh : Fresh (engine.walkRoot graph.root initialInput).log :=
      Engine.eval_fresh hfamily rfl graph.root trivial hverified.uniqueNames hraces hbound
    rw [(Engine.eval_visit_of hmode graph.root hv).executions, hoccurrence] at he
    rw [(Engine.eval_visit_of hmode graph.root hv').executions] at he'
    exact hiterations (hfresh v v' hv hv' hoccurrence (htimely.number_eq he he'))

namespace Sample

/-- Two iterations of a race between two steps, then the end. -/
def repeatedRace : GraphSpec where
  profile := .full
  initialInput := .null
  policy := policy
  root := .seq (group s) [.loop (group l) (.par (group p) [step a, step b] .any) none
    two none, fail f]
  wellFormed := by decide +kernel

/-- Both contenders are dispatched and the first settles. -/
def raceWon : List RunEvent :=
  [.dispatch [(execution 0, position 1), (execution 1, position 2)],
    .settle (execution 0) (position 3) done]

/-- Two iterations of two steps that are both waited for, then the end. -/
def repeatedJoin : GraphSpec where
  profile := .full
  initialInput := .null
  policy := policy
  root := .seq (group s) [.loop (group l) (.par (group p) [step a, step b] .all) none
    two none, fail f]
  wellFormed := by decide +kernel

/-- Both steps of the first iteration settle, then those of the second are dispatched. -/
def bothSettled : List RunEvent :=
  [.dispatch [(execution 0, position 1), (execution 1, position 2)],
    .settle (execution 0) (position 3) done, .settle (execution 1) (position 4) done,
    .dispatch [(execution 2, position 5), (execution 3, position 6)]]

/-- The history after the events of a run, when they can happen. -/
def historyOf (graph : GraphSpec) (events : List RunEvent) : List DurableExecution :=
  (runEvents .anyTime graph.root .null events []).getD []

end Sample

/-- The hypotheses are met by a join that is waited for twice: in both iterations its steps take
executions of their own. -/
theorem repeatedJoin_visitsDisjoint :
    Verified Sample.registry Sample.repeatedJoin ∧
      (∃ v ∈ reductionVisits Sample.repeatedJoin.root .null
          (Sample.historyOf Sample.repeatedJoin Sample.bothSettled),
        ∃ v' ∈ reductionVisits Sample.repeatedJoin.root .null
          (Sample.historyOf Sample.repeatedJoin Sample.bothSettled),
        v.occurrence = v'.occurrence ∧ v.loopIterations ≠ v'.loopIterations ∧
          v.executions = [Sample.execution 0] ∧ v'.executions = [Sample.execution 2]) ∧
      VisitsDisjoint (reductionVisits Sample.repeatedJoin.root .null
        (Sample.historyOf Sample.repeatedJoin Sample.bothSettled)) := by
  have hverified : Verified Sample.registry Sample.repeatedJoin := by decide +kernel
  have hreachable : Reachable .anyTime Sample.repeatedJoin.root .null
      (Sample.historyOf Sample.repeatedJoin Sample.bothSettled) :=
    ⟨Sample.bothSettled, by decide +kernel⟩
  have hbelow : BelowMax (Sample.historyOf Sample.repeatedJoin Sample.bothSettled) := by
    decide +kernel
  refine ⟨hverified, by decide +kernel, reachable_visitsDisjoint Sample.registry
    Sample.repeatedJoin .null _ hverified (by decide) hreachable hbelow⟩

/-- A race that is run twice: once its first contender has settled, the visits of the other one in
both iterations take the same execution. -/
theorem repeatedRace_not_visitsDisjoint :
    Verified Sample.registry Sample.repeatedRace ∧
      runEvents .anyTime Sample.repeatedRace.root .null Sample.raceWon [] =
        some (Sample.historyOf Sample.repeatedRace Sample.raceWon) ∧
      BelowMax (Sample.historyOf Sample.repeatedRace Sample.raceWon) ∧
      (reduceRun Sample.repeatedRace.root .null
        (Sample.historyOf Sample.repeatedRace Sample.raceWon)).isOk = true ∧
      ¬ VisitsDisjoint (reductionVisits Sample.repeatedRace.root .null
        (Sample.historyOf Sample.repeatedRace Sample.raceWon)) := by
  refine ⟨?_, ?_, ?_, ?_, ?_⟩ <;> decide +kernel

end Zeroshot
