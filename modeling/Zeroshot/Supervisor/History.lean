import Zeroshot.Ledger.Lifecycle
import Zeroshot.Run.Order

set_option autoImplicit false

/-!
# The history of a run

What the supervisor hands to the reducer (`durable_history`): the executions of this run at their
ledger positions, moved past every position of the executions it was seeded with, and the seed
itself. The offset is the largest seed position, and any other placement of the two parts, with the
seed first, reduces to the same result (`reduce_order`).
-/

namespace Zeroshot.Supervisor

open Ledger

/-! ## Ledger executions -/

/-- The errors of `NativeV2SupervisorError` that a history and its reduction can give. -/
inductive NativeV2SupervisorError
  | invalidState
  | ledger (error : RunLedgerError)
  | reducer (error : ReducerError)
  deriving DecidableEq, Repr

/-- `HistoryPosition::new`, or an invalid state. -/
def positionOf (value : Nat) : Except NativeV2SupervisorError HistoryPosition :=
  if h : value < 2 ^ 63 then .ok ⟨value, h⟩ else .error .invalidState

/-- `history_position`. -/
def historyPosition (cursor : Cursor) : Except NativeV2SupervisorError HistoryPosition :=
  match cursorSequence cursor with
  | .ok sequence => positionOf sequence
  | .error error => .error (.ledger error)

/-- The state of `durable_execution`. -/
def durableState : NodeState → Except NativeV2SupervisorError DurableExecutionState
  | .active => .ok .active
  | .completed at_ outcome => do
    let position ← historyPosition at_
    .ok (.settled position outcome)
  | .voided at_ reason => do
    let position ← historyPosition at_
    .ok (.voided position reason)

/-- `durable_execution`. -/
def durableExecution (node : NodeSnapshot) : Except NativeV2SupervisorError DurableExecution := do
  let state ← durableState node.state
  let dispatchPosition ← historyPosition node.startedAt
  .ok ⟨dispatchPosition, node.reference.nodeInstance, node.reference.execution, node.occurrence,
    node.attempt, node.input, state⟩

/-- The executions of this run at their ledger positions. -/
def ledgerExecutions (snapshot : RunSnapshot) :
    Except NativeV2SupervisorError (List DurableExecution) :=
  collectOk durableExecution (OrdMap.values snapshot.executions)

/-! ## The seed offset -/

/-- Where an execution ends; an active one, where it was dispatched. -/
def endPosition (e : DurableExecution) : HistoryPosition :=
  e.finalPosition?.getD e.dispatchPosition

/-- The largest position of the seed. -/
def seedOffset (seed : List DurableExecution) : Nat :=
  seed.foldl (fun maximum e => max (max maximum (endPosition e).val) e.dispatchPosition.val) 0

/-- `offset_position`. -/
def offsetPosition (position : HistoryPosition) (offset : Nat) :
    Except NativeV2SupervisorError HistoryPosition :=
  positionOf (position.val + offset)

/-- The state of an execution moved by the offset. -/
def offsetState (offset : Nat) :
    DurableExecutionState → Except NativeV2SupervisorError DurableExecutionState
  | .active => .ok .active
  | .settled position outcome => do
    let position ← offsetPosition position offset
    .ok (.settled position outcome)
  | .voided position reason => do
    let position ← offsetPosition position offset
    .ok (.voided position reason)

def offsetExecution (offset : Nat) (e : DurableExecution) :
    Except NativeV2SupervisorError DurableExecution := do
  let dispatchPosition ← offsetPosition e.dispatchPosition offset
  let state ← offsetState offset e.state
  .ok { e with dispatchPosition, state }

/-- `durable_history`. -/
def durableHistory (snapshot : RunSnapshot) :
    Except NativeV2SupervisorError (List DurableExecution) := do
  let offset := seedOffset snapshot.executionSeed
  let executions ← collectOk (fun node => do
    let e ← durableExecution node
    offsetExecution offset e) (OrdMap.values snapshot.executions)
  -- Sorted by dispatch position and identity, as the losers of a group are.
  .ok ((executions ++ snapshot.executionSeed).insertionSort Progress.loserBefore)

/-! ## Offset executions -/

theorem le_seedOffset {seed : List DurableExecution} {e : DurableExecution} (he : e ∈ seed)
    {p : HistoryPosition} (hp : p ∈ e.positions) : p.val ≤ seedOffset seed := by
  have hgrow : ∀ (l : List DurableExecution) (n : Nat), n ≤ l.foldl (fun maximum e =>
      max (max maximum (endPosition e).val) e.dispatchPosition.val) n := by
    intro l
    induction l with
    | nil => exact fun n => le_refl n
    | cons a l ih =>
      intro n
      refine le_trans ?_ (ih _)
      exact le_trans (le_max_left _ _) (le_max_left _ _)
  have hle : p.val ≤ max (endPosition e).val e.dispatchPosition.val := by
    unfold DurableExecution.positions at hp
    unfold endPosition
    rcases List.mem_cons.mp hp with rfl | hfinal
    · exact le_max_right _ _
    · rw [Option.mem_toList] at hfinal
      rw [Option.mem_def.mp hfinal, Option.getD_some]
      exact le_max_left _ _
  unfold seedOffset
  generalize 0 = start
  induction seed generalizing start with
  | nil => cases he
  | cons a seed ih =>
    rw [List.foldl_cons]
    rcases List.mem_cons.mp he with rfl | he
    · refine le_trans hle (le_trans ?_ (hgrow seed _))
      rw [max_assoc]
      exact le_max_right _ _
    · exact ih he _

/-- The positions an offset takes to each other. -/
def Offset (offset : Nat) (p q : HistoryPosition) : Prop := q.val = p.val + offset

theorem offsetPosition_eq_ok {p q : HistoryPosition} {offset : Nat}
    (h : offsetPosition p offset = .ok q) : Offset offset p q := by
  unfold offsetPosition positionOf at h
  split at h
  · cases h
    rfl
  · cases h

theorem offsetState_eq_ok {offset : Nat} {s s' : DurableExecutionState}
    (h : offsetState offset s = .ok s') : MovedState (Offset offset) s s' := by
  cases s with
  | active =>
    cases h
    exact .active
  | settled position outcome =>
    obtain ⟨position', hposition, h⟩ := except_bind_eq_ok.mp h
    cases h
    exact .settled (offsetPosition_eq_ok hposition) outcome
  | voided position reason =>
    obtain ⟨position', hposition, h⟩ := except_bind_eq_ok.mp h
    cases h
    exact .voided (offsetPosition_eq_ok hposition) reason

/-- **An offset execution** is the execution at moved positions. -/
theorem offsetExecution_eq_ok {offset : Nat} {e e' : DurableExecution}
    (h : offsetExecution offset e = .ok e') : MovedExecution (Offset offset) e e' := by
  obtain ⟨position, hposition, h⟩ := except_bind_eq_ok.mp h
  obtain ⟨state, hstate, h⟩ := except_bind_eq_ok.mp h
  cases h
  exact ⟨offsetPosition_eq_ok hposition, offsetState_eq_ok hstate, rfl⟩

/-- **A history of a run**: its ledger executions, past every seed position, and its seed. -/
theorem durableHistory_eq_ok {snapshot : RunSnapshot} {history : List DurableExecution}
    (h : durableHistory snapshot = .ok history) :
    ∃ ledger moved, ledgerExecutions snapshot = .ok ledger ∧
      List.Forall₂ (MovedExecution (Offset (seedOffset snapshot.executionSeed))) ledger moved ∧
      history.Perm (moved ++ snapshot.executionSeed) := by
  obtain ⟨moved, hmoved, hsorted⟩ := except_bind_eq_ok.mp h
  cases hsorted
  clear h
  rw [collectOk_eq_ok] at hmoved
  obtain ⟨ledger, hledger, hoffset⟩ : ∃ ledger,
      List.Forall₂ (fun node e => durableExecution node = .ok e)
        (OrdMap.values snapshot.executions) ledger ∧
      List.Forall₂ (MovedExecution (Offset (seedOffset snapshot.executionSeed))) ledger moved := by
    revert hmoved
    generalize OrdMap.values snapshot.executions = nodes
    intro hmoved
    induction hmoved with
    | nil => exact ⟨[], .nil, .nil⟩
    | cons hhead _ ih =>
      obtain ⟨e, he, he'⟩ := except_bind_eq_ok.mp hhead
      obtain ⟨ledger, hledger, hoffset⟩ := ih
      exact ⟨e :: ledger, .cons he hledger, .cons (offsetExecution_eq_ok he') hoffset⟩
  exact ⟨ledger, moved, collectOk_eq_ok.mpr hledger, hoffset, List.perm_insertionSort _ _⟩

/-! ## Placements -/

/-- Every position of a history. -/
def historyPositions (executions : List DurableExecution) : List HistoryPosition :=
  executions.flatMap DurableExecution.positions

/-- `f` is strictly increasing on the positions. -/
def IncreasingOn (f : HistoryPosition → HistoryPosition) (positions : List HistoryPosition) :
    Prop :=
  ∀ p ∈ positions, ∀ q ∈ positions, p < q → f p < f q

theorem forall_positions {P : HistoryPosition → Prop} [DecidablePred P]
    {positions : List HistoryPosition} (h : (positions.all fun p => decide (P p)) = true) :
    ∀ p ∈ positions, P p := by
  intro p hp
  exact of_decide_eq_true (List.all_eq_true.mp h p hp)

theorem forall_position_pairs {R : HistoryPosition → HistoryPosition → Prop} [DecidableRel R]
    {positions positions' : List HistoryPosition}
    (h : (positions.all fun p => positions'.all fun q => decide (R p q)) = true) :
    ∀ p ∈ positions, ∀ q ∈ positions', R p q := by
  intro p hp q hq
  exact of_decide_eq_true (List.all_eq_true.mp (List.all_eq_true.mp h p hp) q hq)

theorem IncreasingOn.lt_iff {f : HistoryPosition → HistoryPosition}
    {positions : List HistoryPosition} (h : IncreasingOn f positions) {p q : HistoryPosition}
    (hp : p ∈ positions) (hq : q ∈ positions) : p < q ↔ f p < f q := by
  refine ⟨h p hp q hq, fun hlt => ?_⟩
  rcases lt_trichotomy p q with hpq | rfl | hqp
  · exact hpq
  · exact absurd hlt (lt_irrefl _)
  · exact absurd hlt (h q hq p hp hqp).asymm

section

variable (seed ledger : List DurableExecution) (offset : Nat)
  (f g : HistoryPosition → HistoryPosition)

/-- Seed positions are placed by `f`; ledger positions, which the history has moved by the offset,
by `g`. -/
def Placed (p q : HistoryPosition) : Prop :=
  (p ∈ historyPositions seed ∧ q = f p) ∨
    ∃ n ∈ historyPositions ledger, Offset offset n p ∧ q = g n

variable {seed ledger offset f g}

theorem placed_orderMatch (hbelow : ∀ p ∈ historyPositions seed, p.val ≤ offset)
    (hledger : ∀ n ∈ historyPositions ledger, HistoryPosition.zero < n)
    (hf : IncreasingOn f (historyPositions seed)) (hg : IncreasingOn g (historyPositions ledger))
    (hfg : ∀ p ∈ historyPositions seed, ∀ n ∈ historyPositions ledger, f p < g n) :
    OrderMatch (Placed seed ledger offset f g) := by
  have hpast : ∀ p ∈ historyPositions seed, ∀ n ∈ historyPositions ledger, ∀ q,
      Offset offset n q → p < q := by
    intro p hp n hn q hq
    have hle := hbelow p hp
    have hpos : 0 < n.val := hledger n hn
    have hval : q.val = n.val + offset := hq
    exact Fin.lt_def.mpr (by omega)
  rintro p p' q q' (⟨hp, rfl⟩ | ⟨n, hn, hnp, rfl⟩) (⟨hq, rfl⟩ | ⟨m, hm, hmq, rfl⟩)
  · exact hf.lt_iff hp hq
  · exact ⟨fun _ => hfg p hp m hm, fun _ => hpast p hp m hm q hmq⟩
  · exact ⟨fun hlt => absurd hlt (hpast q hq n hn p hnp).asymm,
      fun hlt => absurd hlt (hfg q hq n hn).asymm⟩
  · rw [← hg.lt_iff hn hm, Fin.lt_def, Fin.lt_def, hnp, hmq]
    omega

end

theorem mem_historyPositions {executions : List DurableExecution} {p : HistoryPosition} :
    p ∈ historyPositions executions ↔ ∃ e ∈ executions, p ∈ e.positions :=
  List.mem_flatMap

theorem seed_placed (seed ledger : List DurableExecution) (offset : Nat)
    (f g : HistoryPosition → HistoryPosition) :
    List.Forall₂ (MovedExecution (withEnds (Placed seed ledger offset f g))) seed
      (seed.map (DurableExecution.reposition f)) := by
  rw [List.forall₂_map_right_iff]
  refine List.forall₂_same.mpr fun e he => ?_
  have hmoved := @DurableExecution.reposition_moved (withEnds (Placed seed ledger offset f g)) id f
    e fun p hp => .inr (.inr (.inl ⟨mem_historyPositions.mpr ⟨e, he, hp⟩, rfl⟩))
  rwa [e.reposition_id] at hmoved

theorem moved_placed {M N : HistoryPosition → HistoryPosition → Prop} {e e' : DurableExecution}
    (h : MovedExecution M e e') {g : HistoryPosition → HistoryPosition}
    (hg : ∀ n ∈ e.positions, ∀ p, M n p → N p (g n)) : MovedExecution N e' (e.reposition g) := by
  obtain ⟨p', s', rfl, hp, hs⟩ := h.eq_moved
  refine ⟨hg _ List.mem_cons_self _ hp, ?_, rfl⟩
  unfold DurableExecution.positions DurableExecution.finalPosition? at hg
  unfold DurableExecution.reposition
  revert hg hs
  generalize e.state = s
  intro hg hs
  cases hs with
  | active => exact .active
  | settled hq outcome =>
    exact .settled (hg _ (List.mem_cons_of_mem _ List.mem_cons_self) _ hq) outcome
  | voided hq reason =>
    exact .voided (hg _ (List.mem_cons_of_mem _ List.mem_cons_self) _ hq) reason

theorem ledger_placed (seed : List DurableExecution) {ledger moved : List DurableExecution}
    {offset : Nat} (h : List.Forall₂ (MovedExecution (Offset offset)) ledger moved)
    (f g : HistoryPosition → HistoryPosition) :
    List.Forall₂ (MovedExecution (withEnds (Placed seed ledger offset f g))) moved
      (ledger.map (DurableExecution.reposition g)) := by
  have hplaced : ∀ n ∈ historyPositions ledger, ∀ p, Offset offset n p →
      withEnds (Placed seed ledger offset f g) p (g n) :=
    fun n hn p hp => .inr (.inr (.inr ⟨n, hn, hp, rfl⟩))
  revert hplaced
  generalize withEnds (Placed seed ledger offset f g) = N
  intro hplaced
  induction h with
  | nil => exact .nil
  | @cons e e' ledger moved he _ ih =>
    refine .cons (moved_placed he fun n hn => hplaced n ?_) (ih fun n hn => hplaced n ?_)
    · exact mem_historyPositions.mpr ⟨e, List.mem_cons_self, hn⟩
    · obtain ⟨d, hd, hn⟩ := mem_historyPositions.mp hn
      exact mem_historyPositions.mpr ⟨d, List.mem_cons_of_mem _ hd, hn⟩

theorem exists_moved_position {M : HistoryPosition → HistoryPosition → Prop}
    {executions moved : List DurableExecution}
    (h : List.Forall₂ (MovedExecution M) executions moved) {n : HistoryPosition}
    (hn : n ∈ historyPositions executions) : ∃ p ∈ historyPositions moved, M n p := by
  induction h with
  | nil => cases hn
  | @cons e e' executions moved he _ ih =>
    rw [historyPositions, List.flatMap_cons, List.mem_append] at hn
    simp only [historyPositions, List.flatMap_cons, List.mem_append]
    rcases hn with hn | hn
    · obtain ⟨p', s', rfl, hp, hs⟩ := he.eq_moved
      unfold DurableExecution.positions DurableExecution.finalPosition? at hn
      unfold DurableExecution.positions DurableExecution.finalPosition?
      rcases List.mem_cons.mp hn with rfl | hn
      · exact ⟨p', .inl List.mem_cons_self, hp⟩
      · revert hs hn
        generalize e.state = s
        intro hs hn
        cases hs with
        | active => cases hn
        | settled hq outcome =>
          cases List.mem_singleton.mp hn
          exact ⟨_, .inl (List.mem_cons_of_mem _ List.mem_cons_self), hq⟩
        | voided hq reason =>
          cases List.mem_singleton.mp hn
          exact ⟨_, .inl (List.mem_cons_of_mem _ List.mem_cons_self), hq⟩
    · obtain ⟨p, hp, hM⟩ := ih hn
      exact ⟨p, .inr hp, hM⟩

/-- **A reduction depends on positions through their order only.** Positions moved by a strictly
increasing function give the same result; so does every placement of the ledger part and the seed
of a run's history that keeps the order of each and puts the seed first. (`f` need only be
increasing on the positions that occur: on the whole range only the identity is.) -/
theorem reduce_order (mode : ExecutionMode) (root : GraphNode) (initialInput : Value)
    (nextNodeInstance nextExecution : Nat) :
    (∀ executions f, (∀ p ∈ historyPositions executions, p.Inner ∧ (f p).Inner) →
      IncreasingOn f (historyPositions executions) →
      reduce mode root ⟨initialInput, executions.map (DurableExecution.reposition f),
          nextNodeInstance, nextExecution⟩ =
        reduce mode root ⟨initialInput, executions, nextNodeInstance, nextExecution⟩) ∧
    ∀ snapshot ledger history f g, ledgerExecutions snapshot = .ok ledger →
      durableHistory snapshot = .ok history →
      (∀ p ∈ historyPositions history, p.Inner) →
      (∀ n ∈ historyPositions ledger, HistoryPosition.zero < n ∧ (g n).Inner) →
      (∀ p ∈ historyPositions snapshot.executionSeed, (f p).Inner) →
      IncreasingOn f (historyPositions snapshot.executionSeed) →
      IncreasingOn g (historyPositions ledger) →
      (∀ p ∈ historyPositions snapshot.executionSeed, ∀ n ∈ historyPositions ledger, f p < g n) →
      reduce mode root ⟨initialInput, ledger.map (DurableExecution.reposition g) ++
          snapshot.executionSeed.map (DurableExecution.reposition f),
          nextNodeInstance, nextExecution⟩ =
        reduce mode root ⟨initialInput, history, nextNodeInstance, nextExecution⟩ := by
  constructor
  · intro executions f hinner hf
    have hM : Moves (withEnds (Placed executions [] (2 ^ 63) f f)) := by
      refine withEnds_moves (placed_orderMatch (fun p _ => le_of_lt p.isLt) ?_ hf ?_ ?_) ?_ ?_
      · intro n hn
        cases hn
      · intro n hn
        cases hn
      · intro p _ n hn
        cases hn
      · rintro p q (⟨hp, -⟩ | ⟨n, hn, -⟩)
        · exact (hinner p hp).1
        · cases hn
      · rintro p q (⟨hp, rfl⟩ | ⟨n, hn, -⟩)
        · exact (hinner p hp).2
        · cases hn
    exact reduce_movedHistory hM mode root
      ⟨initialInput, executions, nextNodeInstance, nextExecution⟩
      ⟨executions, List.Perm.refl _, seed_placed executions [] (2 ^ 63) f f⟩
  · intro snapshot ledger history f g hledger hhistory hinner hpositive himages hf hg hfg
    obtain ⟨ledger', moved, hledger', hmoved, hperm⟩ := durableHistory_eq_ok hhistory
    rw [hledger] at hledger'
    cases hledger'
    have hmem : ∀ p, p ∈ historyPositions moved ∨ p ∈ historyPositions snapshot.executionSeed →
        p.Inner := by
      intro p hp
      refine hinner p (mem_historyPositions.mpr ?_)
      rcases hp with hp | hp <;> obtain ⟨e, he, hp⟩ := mem_historyPositions.mp hp
      · exact ⟨e, hperm.mem_iff.mpr (List.mem_append_left _ he), hp⟩
      · exact ⟨e, hperm.mem_iff.mpr (List.mem_append_right _ he), hp⟩
    have hM : Moves (withEnds (Placed snapshot.executionSeed ledger
        (seedOffset snapshot.executionSeed) f g)) := by
      refine withEnds_moves (placed_orderMatch ?_ (fun n hn => (hpositive n hn).1) hf hg hfg) ?_ ?_
      · intro p hp
        obtain ⟨e, he, hp⟩ := mem_historyPositions.mp hp
        exact le_seedOffset he hp
      · rintro p q (⟨hp, -⟩ | ⟨n, hn, hnp, -⟩)
        · exact hmem p (.inr hp)
        · obtain ⟨p', hp', hnp'⟩ := exists_moved_position hmoved hn
          have heq : p = p' := Fin.ext (hnp.trans hnp'.symm)
          exact heq ▸ hmem p' (.inl hp')
      · rintro p q (⟨hp, rfl⟩ | ⟨n, hn, -, rfl⟩)
        · exact himages p hp
        · exact (hpositive n hn).2
    exact reduce_movedHistory hM mode root
      ⟨initialInput, history, nextNodeInstance, nextExecution⟩
      ⟨moved ++ snapshot.executionSeed, hperm, List.rel_append
        (ledger_placed snapshot.executionSeed hmoved f g)
        (seed_placed snapshot.executionSeed ledger _ f g)⟩

namespace Sample

open Zeroshot.Sample

/-- The second contender of a race, dispatched by the second event of its run. -/
def contender : NodeSnapshot where
  reference := ⟨Ledger.Sample.runId, b, ⟨(execution 1).get, (execution 1).positive,
    (execution 1).bounded⟩, execution 1⟩
  occurrence := ⟨b, []⟩
  attempt := PositiveInteger.one
  input := .null
  startedAt := cursorFor 2
  state := .active
  failureDiagnostic := false

/-- A run seeded with the winner of a race. -/
def resumedRace : RunSnapshot :=
  { RunSnapshot.ofAdmitted Ledger.Sample.runId Ledger.Sample.request.admitted with
    executions := [(execution 1, contender)]
    executionSeed := [attempt 0 a [] 1 (.settled (position 3) done)] }

def resumedLedger : List DurableExecution := [attempt 1 b [] 2 .active]

def resumedHistory : List DurableExecution :=
  [attempt 0 a [] 1 (.settled (position 3) done), attempt 1 b [] 5 .active]

end Sample

/-- A race and the same race at ten times its positions; a resumed race and the same race with its
seed at twice its positions and its ledger from one hundred on. -/
theorem race_order :
    reduce .nativeV2 Zeroshot.Sample.race.root
        ⟨.null, (Zeroshot.Sample.raceHistory .active).map (DurableExecution.reposition fun p =>
          Zeroshot.Sample.position (10 * p.val)), 10, 10⟩ =
      reduce .nativeV2 Zeroshot.Sample.race.root
        ⟨.null, Zeroshot.Sample.raceHistory .active, 10, 10⟩ ∧
    durableHistory Sample.resumedRace = .ok Sample.resumedHistory ∧
    reduce .nativeV2 Zeroshot.Sample.race.root
        ⟨.null, Sample.resumedLedger.map (DurableExecution.reposition fun n =>
            Zeroshot.Sample.position (n.val + 100)) ++
          Sample.resumedRace.executionSeed.map (DurableExecution.reposition fun p =>
            Zeroshot.Sample.position (2 * p.val)), 10, 10⟩ =
      reduce .nativeV2 Zeroshot.Sample.race.root ⟨.null, Sample.resumedHistory, 10, 10⟩ := by
  have hhistory : durableHistory Sample.resumedRace = .ok Sample.resumedHistory := by
    decide
  obtain ⟨hmoved, hplaced⟩ := reduce_order .nativeV2 Zeroshot.Sample.race.root .null 10 10
  have hincreasing : ∀ (f : HistoryPosition → HistoryPosition) positions,
      (positions.all fun p => positions.all fun q => decide (p < q → f p < f q)) = true →
        IncreasingOn f positions := by
    intro f positions h
    exact forall_position_pairs (R := fun p q => p < q → f p < f q) h
  refine ⟨?_, hhistory, ?_⟩
  · exact hmoved _ _ (forall_positions (by decide)) (hincreasing _ _ (by decide))
  · exact hplaced Sample.resumedRace Sample.resumedLedger Sample.resumedHistory _ _
      (by decide) hhistory (forall_positions (by decide))
      (forall_positions (by decide)) (forall_positions (by decide))
      (hincreasing _ _ (by decide)) (hincreasing _ _ (by decide))
      (forall_position_pairs (by decide))

end Zeroshot.Supervisor
