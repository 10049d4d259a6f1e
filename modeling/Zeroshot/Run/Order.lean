import Zeroshot.Reducer.Reordering
import Zeroshot.Run.Terminal

set_option autoImplicit false

/-!
# What order a reduction sees

The order in which a history lists its executions is not seen at all (`reduce_perm`); the order of
their positions is all that is seen of the positions (`reduce_matched`): a matching of positions
that keeps comparisons, and stays off the two ends that the evaluators use as "no position", moves
no result.
-/

namespace Zeroshot

/-! ## The order of the list -/

theorem moves_eq : Moves Eq where
  order p p' q q' hp hq := by rw [hp, hq]
  zero := rfl
  max := rfl

theorem movedExecution_refl (e : DurableExecution) : MovedExecution Eq e e where
  dispatched := rfl
  state := by
    cases e.state with
    | active => exact .active
    | settled position outcome => exact .settled rfl outcome
    | voided position reason => exact .voided rfl reason
  rest := rfl

/-- `canonical_decision_bytes`, over the encoder it calls. -/
def Reduction.canonicalDecisionBytes {bytes : Type} (toVec : List Decision → Option bytes)
    (reduction : Reduction) : Option bytes :=
  toVec reduction.decisions

/-- **The order of the history list is irrelevant**: both lists give the same result, and the same
encoded decisions. -/
theorem reduce_perm (mode : ExecutionMode) (root : GraphNode) (initialInput : Value)
    (nextNodeInstance nextExecution : Nat) {executions history : List DurableExecution}
    (h : executions.Perm history) {bytes : Type} (toVec : List Decision → Option bytes) :
    reduce mode root ⟨initialInput, history, nextNodeInstance, nextExecution⟩ =
        reduce mode root ⟨initialInput, executions, nextNodeInstance, nextExecution⟩ ∧
      (reduce mode root ⟨initialInput, history, nextNodeInstance, nextExecution⟩).map
          (Reduction.canonicalDecisionBytes toVec) =
        (reduce mode root ⟨initialInput, executions, nextNodeInstance, nextExecution⟩).map
          (Reduction.canonicalDecisionBytes toVec) := by
  have hmoved : MovedHistory Eq executions history :=
    ⟨history, h, List.forall₂_same.mpr fun e _ => movedExecution_refl e⟩
  have hreduce := reduce_movedHistory moves_eq mode root
    ⟨initialInput, executions, nextNodeInstance, nextExecution⟩ hmoved
  exact ⟨hreduce, congrArg _ hreduce⟩

/-- A race with its contenders listed the other way around. -/
theorem race_perm :
    (Sample.raceHistory .active).Perm (Sample.raceHistory .active).reverse ∧
      reduce .nativeV2 Sample.race.root (Sample.inputOf .null (Sample.raceHistory .active)) =
        .ok (Sample.reductionOf Sample.race .null (Sample.raceHistory .active)) ∧
      reduce .nativeV2 Sample.race.root
          (Sample.inputOf .null (Sample.raceHistory .active).reverse) =
        .ok (Sample.reductionOf Sample.race .null (Sample.raceHistory .active)) := by
  have hperm : (Sample.raceHistory .active).Perm (Sample.raceHistory .active).reverse :=
    (List.reverse_perm _).symm
  have hreduce : reduce .nativeV2 Sample.race.root
      (Sample.inputOf .null (Sample.raceHistory .active)) =
        .ok (Sample.reductionOf Sample.race .null (Sample.raceHistory .active)) := by
    decide
  have hsame := (reduce_perm .nativeV2 Sample.race.root .null 10 10 hperm some).1
  exact ⟨hperm, hreduce, hsame.trans hreduce⟩

/-! ## The order of the positions -/

/-- A matching of positions between the ends, with the ends matched to themselves. -/
def withEnds (M : HistoryPosition → HistoryPosition → Prop) (p q : HistoryPosition) : Prop :=
  p = HistoryPosition.zero ∧ q = HistoryPosition.zero ∨
    p = HistoryPosition.max ∧ q = HistoryPosition.max ∨ M p q

/-- Strictly between the two ends. -/
def HistoryPosition.Inner (p : HistoryPosition) : Prop :=
  HistoryPosition.zero < p ∧ p < HistoryPosition.max

instance : DecidablePred HistoryPosition.Inner := fun p =>
  inferInstanceAs (Decidable (HistoryPosition.zero < p ∧ p < HistoryPosition.max))

theorem withEnds_moves {M : HistoryPosition → HistoryPosition → Prop} (hM : OrderMatch M)
    (hleft : ∀ p q, M p q → p.Inner) (hright : ∀ p q, M p q → q.Inner) : Moves (withEnds M) where
  zero := .inl ⟨rfl, rfl⟩
  max := .inr (.inl ⟨rfl, rfl⟩)
  order := by
    intro p p' q q' hp hq
    have hends : HistoryPosition.zero < HistoryPosition.max := by decide
    rcases hp with ⟨rfl, rfl⟩ | ⟨rfl, rfl⟩ | hp <;> rcases hq with ⟨rfl, rfl⟩ | ⟨rfl, rfl⟩ | hq
    · exact ⟨id, id⟩
    · exact ⟨id, id⟩
    · exact ⟨fun _ => (hright q q' hq).1, fun _ => (hleft q q' hq).1⟩
    · exact ⟨id, id⟩
    · exact ⟨id, id⟩
    · exact ⟨fun h => absurd h (hleft q q' hq).2.asymm, fun h => absurd h (hright q q' hq).2.asymm⟩
    · exact ⟨fun h => absurd h (hleft p p' hp).1.asymm, fun h => absurd h (hright p p' hp).1.asymm⟩
    · exact ⟨fun _ => (hright p p' hp).2, fun _ => (hleft p p' hp).2⟩
    · exact hM p p' q q' hp hq

namespace DurableExecution

/-- The execution with `f` applied to its positions. -/
def reposition (f : HistoryPosition → HistoryPosition) (e : DurableExecution) :
    DurableExecution where
  dispatchPosition := f e.dispatchPosition
  nodeInstance := e.nodeInstance
  execution := e.execution
  occurrence := e.occurrence
  attempt := e.attempt
  input := e.input
  state :=
    match e.state with
    | .active => .active
    | .settled position outcome => .settled (f position) outcome
    | .voided position reason => .voided (f position) reason

/-- A matching of an execution's positions with their images matches the executions. -/
theorem reposition_moved {M : HistoryPosition → HistoryPosition → Prop}
    {f g : HistoryPosition → HistoryPosition} {e : DurableExecution}
    (h : ∀ p ∈ e.positions, M (f p) (g p)) :
    MovedExecution M (e.reposition f) (e.reposition g) where
  dispatched := h _ List.mem_cons_self
  state := by
    unfold positions finalPosition? at h
    unfold reposition
    cases hstate : e.state with
    | active => exact .active
    | settled position outcome =>
      rw [hstate] at h
      exact .settled (h _ (List.mem_cons_of_mem _ List.mem_cons_self)) outcome
    | voided position reason =>
      rw [hstate] at h
      exact .voided (h _ (List.mem_cons_of_mem _ List.mem_cons_self)) reason
  rest := rfl

theorem reposition_id (e : DurableExecution) : e.reposition id = e := by
  obtain ⟨dispatchPosition, nodeInstance, execution, occurrence, attempt, input, state⟩ := e
  cases state <;> rfl

end DurableExecution

end Zeroshot
