import Zeroshot.Reducer.Facts
import Zeroshot.Reducer.Reduction

set_option autoImplicit false

/-!
# Late events

A history changes after a reduction only by events at later positions: executions settle or are
voided, and new ones are dispatched. Up to a position that all of them exceed the leaves show the
same outcomes (`leavesAgree_of_sameView`), so causality applies: a finished run stays finished with
the same result and asks for nothing more, and a reached join keeps its winners.
-/

namespace Zeroshot

open Logged Engine

/-! ## Views -/

/-- What an evaluation with cutoff `c` sees of an execution up to `q`. -/
def seen (q c : HistoryPosition) (e : DurableExecution) :
    Option (HistoryPosition × WorkerOutcome) :=
  (visibleOutcome c e).filter fun outcome => outcome.1 ≤ q

/-- Two executions of the same visit that look alike up to `q`. -/
structure SameView (q c c' : HistoryPosition) (e e' : DurableExecution) : Prop where
  occurrence : e.occurrence = e'.occurrence
  dispatchPosition : e.dispatchPosition = e'.dispatchPosition
  attempt : e.attempt = e'.attempt
  seen : seen q c e = seen q c' e'

theorem leafOutcome_filter {engine : Engine} (spec : ExecutableSpec) (mapIndices : List Nat)
    (number : Nat) (q c : HistoryPosition) :
    (engine.leafOutcome spec mapIndices number c).filter (fun outcome => outcome.1 ≤ q) =
      (engine.visitExecutions ⟨spec.name, mapIndices⟩ number).getLast?.bind fun e =>
        (seen q c e).filter fun outcome => !engine.isRetried spec e outcome.2 := by
  rw [leafOutcome]
  cases (engine.visitExecutions ⟨spec.name, mapIndices⟩ number).getLast? with
  | none => rfl
  | some e =>
    simp only [Option.bind_some, seen, Option.filter_filter, Bool.and_comm]

theorem forall₂_nativeVisitExecutions {q c c' : HistoryPosition} {requested visit : Nat}
    {executions executions' : List DurableExecution}
    (h : List.Forall₂ (SameView q c c') executions executions') :
    List.Forall₂ (SameView q c c') (nativeVisitExecutions requested visit executions)
      (nativeVisitExecutions requested visit executions') := by
  induction h generalizing visit with
  | nil => exact .nil
  | @cons e e' _ _ hhead _ ih =>
    simp only [nativeVisitExecutions, hhead.attempt]
    generalize (if e'.attempt.get = 1 then visit + 1 else visit) = visit'
    split
    · exact .cons hhead ih
    · exact ih

theorem forall₂_visitExecutions {q c c' : HistoryPosition} {engine engine' : Engine}
    (h : List.Forall₂ (SameView q c c') engine.executions engine'.executions)
    (occurrence : StructuralOccurrence) (number : Nat) :
    List.Forall₂ (SameView q c c') (engine.visitExecutions occurrence number)
      (engine'.visitExecutions occurrence number) := by
  refine forall₂_nativeVisitExecutions (forall₂_insertionSort ?_ ?_)
  · intro a b a' b' hab hab'
    rw [dispatchedBefore, dispatchedBefore, hab.dispatchPosition, hab'.dispatchPosition]
  · refine List.rel_filter ?_ h
    intro a b hab
    dsimp only
    rw [hab.occurrence]

theorem leavesAgree_of_sameView {q c c' : HistoryPosition} {engine engine' : Engine}
    (hconfig : SameConfig engine engine')
    (h : List.Forall₂ (SameView q c c') engine.executions engine'.executions) :
    LeavesAgree q c c' engine engine' := by
  intro spec mapIndices number
  rw [leafOutcome_filter, leafOutcome_filter]
  rcases forall₂_getLast? (forall₂_visitExecutions h ⟨spec.name, mapIndices⟩ number) with
    ⟨hnone, hnone'⟩ | ⟨e, e', hlast, hlast', hview⟩
  · rw [hnone, hnone', Option.bind_none, Option.bind_none]
  · have hretried : engine.isRetried spec e = engine'.isRetried spec e' := by
      funext outcome
      simp only [isRetried, hconfig.native, hconfig.native', hview.attempt]
    rw [hlast, hlast', Option.bind_some, Option.bind_some, hview.seen, hretried]

/-! ## Histories alike up to a position -/

/-- The outcome of an execution settled by `q`. -/
def early (q : HistoryPosition) (e : DurableExecution) :
    Option (HistoryPosition × WorkerOutcome) :=
  match e.state with
  | .settled position outcome => if position ≤ q then some (position, outcome) else none
  | .active | .voided _ _ => none

theorem seen_eq (q c : HistoryPosition) (e : DurableExecution) :
    seen q c e = (early q e).filter fun outcome => e.dispatchPosition ≤ c ∧ outcome.1 ≤ c := by
  unfold seen early visibleOutcome
  cases e.state with
  | active => rfl
  | voided position reason => rfl
  | settled position outcome =>
    by_cases hq : position ≤ q <;> by_cases hc : e.dispatchPosition ≤ c ∧ position ≤ c <;>
      simp only [hq, hc, if_true, if_false, and_self, Option.filter_some, Option.filter_none,
        decide_true, decide_false, Bool.false_eq_true]

theorem early_le {q : HistoryPosition} {e : DurableExecution}
    {outcome : HistoryPosition × WorkerOutcome} (h : early q e = some outcome) :
    outcome.1 ≤ q := by
  unfold early at h
  split at h
  · split at h
    · cases h
      assumption
    · cases h
  all_goals cases h

/-- Executions of one visit with the same outcome by `q`, dispatched by then if there is one. -/
structure AlikeUpTo (q : HistoryPosition) (e e' : DurableExecution) : Prop where
  occurrence : e.occurrence = e'.occurrence
  dispatchPosition : e.dispatchPosition = e'.dispatchPosition
  attempt : e.attempt = e'.attempt
  early : early q e = early q e'
  dispatched : ∀ outcome, Zeroshot.early q e = some outcome → e.dispatchPosition ≤ q

theorem AlikeUpTo.sameView {q c c' : HistoryPosition} {e e' : DurableExecution}
    (h : AlikeUpTo q e e') (hc : Comparable q c c') : SameView q c c' e e' := by
  refine ⟨h.occurrence, h.dispatchPosition, h.attempt, ?_⟩
  rw [seen_eq, seen_eq, ← h.early, ← h.dispatchPosition]
  rcases hc with rfl | ⟨hc, hc'⟩
  · rfl
  · cases hearly : Zeroshot.early q e with
    | none => rfl
    | some outcome =>
      have hdispatch := h.dispatched outcome hearly
      have hle := early_le hearly
      rw [Option.filter_some, Option.filter_some,
        if_pos (decide_eq_true ⟨hdispatch.trans hc, hle.trans hc⟩),
        if_pos (decide_eq_true ⟨hdispatch.trans hc', hle.trans hc'⟩)]

/-- Engines alike up to every level form a family. -/
theorem engineFamily_of_alikeUpTo {exempt : Prop} {levels : HistoryPosition → Prop}
    {engines : Engine → Prop}
    (config : ∀ {engine engine'}, engines engine → engines engine' → SameConfig engine engine')
    (alike : ∀ {engine engine'}, engines engine → engines engine' → ∀ {q}, levels q →
      List.Forall₂ (AlikeUpTo q) engine.executions engine'.executions)
    (bounded : ∃ bound < HistoryPosition.max, ∀ {engine}, engines engine →
      ∀ e ∈ engine.executions, ∀ p o, e.state = .settled p o → p ≤ bound)
    (down : exempt ∨ ∀ {q p}, levels q → p ≤ q → levels p) :
    EngineFamily exempt levels engines where
  config := config
  leaves hmem hmem' _ _ _ hq hc :=
    leavesAgree_of_sameView (config hmem hmem') ((alike hmem hmem' hq).imp fun _ _ h =>
      h.sameView hc)
  bounded := by
    obtain ⟨bound, hmax, hbound⟩ := bounded
    exact ⟨bound, hmax, fun hmem d => leafBound_of_settled (hbound hmem) d⟩
  down := down

/-! ## Late events -/

/-- One execution before and after late events: while active it may settle, or be voided as
requested. -/
inductive LateEvent (late : HistoryPosition → Prop)
    (requested : ExecutionId → ExecutionVoidReason → Prop) :
    DurableExecution → DurableExecution → Prop
  | kept (e : DurableExecution) : LateEvent late requested e e
  | settled (e : DurableExecution) (position : HistoryPosition) (outcome : WorkerOutcome)
      (hactive : e.state = .active) (hlate : late position) :
      LateEvent late requested e { e with state := .settled position outcome }
  | voided (e : DurableExecution) (position : HistoryPosition) (reason : ExecutionVoidReason)
      (hactive : e.state = .active) (hlate : late position)
      (hrequested : requested e.execution reason) :
      LateEvent late requested e { e with state := .voided position reason }

/-- The later history has late events only. -/
def LateEvents (late : HistoryPosition → Prop)
    (requested : ExecutionId → ExecutionVoidReason → Prop)
    (executions executions' : List DurableExecution) : Prop :=
  List.Forall₂ (LateEvent late requested) executions executions'

/-- Larger than every position of the history. -/
def After (executions : List DurableExecution) (p : HistoryPosition) : Prop :=
  ∀ e ∈ executions, ∀ q ∈ e.positions, q < p

/-- Every settled execution was dispatched before it settled. -/
def Ordered (executions : List DurableExecution) : Prop :=
  ∀ e ∈ executions, ∀ p o, e.state = .settled p o → e.dispatchPosition ≤ p

section

variable {late : HistoryPosition → Prop} {requested : ExecutionId → ExecutionVoidReason → Prop}
  {q : HistoryPosition}

theorem AlikeUpTo.symm {e e' : DurableExecution} (h : AlikeUpTo q e e') : AlikeUpTo q e' e :=
  ⟨h.occurrence.symm, h.dispatchPosition.symm, h.attempt.symm, h.early.symm, fun outcome ho =>
    h.dispatchPosition ▸ h.dispatched outcome (h.early.trans ho)⟩

theorem AlikeUpTo.left {e e' : DurableExecution} (h : AlikeUpTo q e e') : AlikeUpTo q e e :=
  ⟨rfl, rfl, rfl, rfl, h.dispatched⟩

theorem alikeUpTo_of_late {e e' : DurableExecution} (h : LateEvent late requested e e')
    (hlate : ∀ p, late p → q < p)
    (hdispatched : ∀ outcome, early q e = some outcome → e.dispatchPosition ≤ q) :
    AlikeUpTo q e e' := by
  refine ⟨?_, ?_, ?_, ?_, hdispatched⟩
  · cases h <;> rfl
  · cases h <;> rfl
  · cases h <;> rfl
  · cases h with
    | kept => rfl
    | settled position outcome hactive hp =>
      have hnot : ¬ position ≤ q := not_le.mpr (hlate position hp)
      simp only [early, hactive, if_neg hnot]
    | voided position reason hactive hp => simp only [early, hactive]

theorem lateEvents_alike {executions executions' : List DurableExecution}
    (h : LateEvents late requested executions executions') (hlate : ∀ p, late p → q < p)
    (hdispatched : ∀ e ∈ executions, ∀ outcome, early q e = some outcome →
      e.dispatchPosition ≤ q) :
    List.Forall₂ (AlikeUpTo q) executions executions' := by
  induction h with
  | nil => exact .nil
  | cons hhead _ ih =>
    exact .cons (alikeUpTo_of_late hhead hlate (hdispatched _ List.mem_cons_self))
      (ih fun e he => hdispatched e (List.mem_cons_of_mem _ he))

/-- Settled positions after late events: old ones, or late ones. -/
theorem settled_of_late {executions executions' : List DurableExecution}
    (h : LateEvents late requested executions executions') {e' : DurableExecution}
    (he' : e' ∈ executions') {p : HistoryPosition} {o : WorkerOutcome}
    (hstate : e'.state = .settled p o) :
    late p ∨ ∃ e ∈ executions, e.state = .settled p o := by
  induction h with
  | nil => cases he'
  | @cons e e₁ _ _ hhead _ ih =>
    rcases List.mem_cons.mp he' with rfl | he'
    · cases hhead with
      | kept => exact .inr ⟨e', List.mem_cons_self, hstate⟩
      | settled position outcome hactive hp =>
        cases hstate
        exact .inl hp
      | voided position reason hactive hp => cases hstate
    · rcases ih he' with hp | ⟨e, he, hstate⟩
      · exact .inl hp
      · exact .inr ⟨e, List.mem_cons_of_mem _ he, hstate⟩

/-- Two histories that differ have a late event. -/
theorem exists_late_of_ne {executions executions' : List DurableExecution}
    (h : LateEvents late requested executions executions') (hne : executions' ≠ executions) :
    ∃ p, late p ∧ executions ≠ [] := by
  induction h with
  | nil => exact absurd rfl hne
  | @cons e e₁ _ _ hhead htail ih =>
    cases hhead with
    | kept =>
      obtain ⟨p, hp, -⟩ := ih fun heq => hne (by rw [heq])
      exact ⟨p, hp, by simp⟩
    | settled position outcome hactive hp => exact ⟨position, hp, by simp⟩
    | voided position reason hactive hp => exact ⟨position, hp, by simp⟩

end

theorem forall₂_alike_left {q : HistoryPosition} {executions executions' : List DurableExecution}
    (h : List.Forall₂ (AlikeUpTo q) executions executions') :
    List.Forall₂ (AlikeUpTo q) executions executions := by
  induction h with
  | nil => exact .nil
  | cons hhead _ ih => exact .cons hhead.left ih

/-- A family of two engines alike up to every level. -/
theorem pairFamily {exempt : Prop} {levels : HistoryPosition → Prop} {engine engine' : Engine}
    (hconfig : SameConfig engine engine')
    (halike : ∀ q, levels q → List.Forall₂ (AlikeUpTo q) engine.executions engine'.executions)
    (hbounded : ∃ bound < HistoryPosition.max,
      (∀ e ∈ engine.executions, ∀ p o, e.state = .settled p o → p ≤ bound) ∧
      ∀ e ∈ engine'.executions, ∀ p o, e.state = .settled p o → p ≤ bound)
    (down : exempt ∨ ∀ {q p}, levels q → p ≤ q → levels p) :
    EngineFamily exempt levels fun x => x = engine ∨ x = engine' := by
  refine engineFamily_of_alikeUpTo ?_ ?_ ?_ down
  · rintro x y (rfl | rfl) (rfl | rfl)
    · exact ⟨⟨rfl, rfl⟩, hconfig.native, hconfig.native⟩
    · exact hconfig
    · exact hconfig.symm
    · exact ⟨⟨rfl, rfl⟩, hconfig.native', hconfig.native'⟩
  · rintro x y (rfl | rfl) (rfl | rfl) q hq
    · exact forall₂_alike_left (halike q hq)
    · exact halike q hq
    · exact (halike q hq).flip.imp fun _ _ h => h.symm
    · exact forall₂_alike_left ((halike q hq).flip.imp fun _ _ h => h.symm)
  · obtain ⟨bound, hmax, hfirst, hsecond⟩ := hbounded
    refine ⟨bound, hmax, ?_⟩
    rintro x (rfl | rfl)
    · exact hfirst
    · exact hsecond

/-! ## Stability -/

/-- The joins the evaluation of a history comes across. -/
def reachedJoins (root : GraphNode) (input : ReductionInput) : List JoinRecord :=
  match Engine.new input root .nativeV2 with
  | .ok engine => (engine.walkRoot root input.initialInput).log.filterMap fun effect =>
      match effect with
      | .joined record => some record
      | _ => none
  | .error _ => []

/-- The winners and the position of one visit of a parallel group, once its join is reached. -/
def joinOutcome (root : GraphNode) (input : ReductionInput) (join : Join)
    (branches : List GraphNode) (context : Context) (t : Traversal) :
    Except ReducerError (Option (List Nat × HistoryPosition)) := do
  let engine ← Engine.new input root .nativeV2
  let probes ← (probeParallel (branches.map engine.child) context t).result
  .ok <| if parallelJoinRequired join probes.length ≤
      (engine.completions join t.mapIndices probes).length then
    some ((engine.winnersOf join t.mapIndices probes).map Prod.fst,
      latest ((engine.winnersOf join t.mapIndices probes).map Prod.snd))
  else none

theorem lt_max_iff_le {p : HistoryPosition} :
    p < HistoryPosition.max ↔ p ≤ (⟨2 ^ 63 - 2, by decide⟩ : HistoryPosition) := by
  rw [Fin.lt_def, Fin.le_def]
  change p.val < 2 ^ 63 - 1 ↔ p.val ≤ 2 ^ 63 - 2
  omega

/-- The last position of a history. -/
def lastPosition (executions : List DurableExecution) : HistoryPosition :=
  latest (executions.flatMap DurableExecution.positions)

theorem le_lastPosition {executions : List DurableExecution} {e : DurableExecution}
    (he : e ∈ executions) {p : HistoryPosition} (hp : p ∈ e.positions) :
    p ≤ lastPosition executions :=
  le_latest (List.mem_flatMap.mpr ⟨e, he, hp⟩)

theorem lastPosition_lt {executions : List DurableExecution} (hne : executions ≠ [])
    {p : HistoryPosition} (h : After executions p) : lastPosition executions < p := by
  obtain ⟨e, he⟩ := List.exists_mem_of_ne_nil _ hne
  have hpos : HistoryPosition.zero < p :=
    (HistoryPosition.zero_le _).trans_lt (h e he e.dispatchPosition List.mem_cons_self)
  have hall : ∀ positions : List HistoryPosition, (∀ q ∈ positions, q < p) →
      latest positions < p := by
    intro positions
    induction positions with
    | nil => exact fun _ => hpos
    | cons q positions ih =>
      intro hq
      exact max_lt (hq q List.mem_cons_self) (ih fun r hr => hq r (List.mem_cons_of_mem _ hr))
  refine hall _ fun q hq => ?_
  obtain ⟨e, he, hq⟩ := List.mem_flatMap.mp hq
  exact h e he q hq

theorem dispatch_mem_positions (e : DurableExecution) : e.dispatchPosition ∈ e.positions :=
  List.mem_cons_self

theorem settled_mem_positions {e : DurableExecution} {p : HistoryPosition} {o : WorkerOutcome}
    (h : e.state = .settled p o) : p ∈ e.positions := by
  rw [DurableExecution.positions, DurableExecution.finalPosition?, h]
  simp

/-- The positions late events may have. -/
def LatePosition (executions : List DurableExecution) (p : HistoryPosition) : Prop :=
  After executions p ∧ p < HistoryPosition.max

section

variable {root : GraphNode} {input input' : ReductionInput} {engine engine' : Engine}
  {requested : ExecutionId → ExecutionVoidReason → Prop}

theorem sameConfig_of_new (h : Engine.new input root .nativeV2 = .ok engine)
    (h' : Engine.new input' root .nativeV2 = .ok engine') : SameConfig engine engine' := by
  obtain ⟨-, hdepths, hpromotions, hmode, -, -⟩ := Engine.new_eq_ok h
  obtain ⟨-, hdepths', hpromotions', hmode', -, -⟩ := Engine.new_eq_ok h'
  rw [hpromotions] at hpromotions'
  exact ⟨⟨hdepths.trans hdepths'.symm, Except.ok.inj hpromotions'⟩, hmode, hmode'⟩

theorem engine_eq_of_executions (h : Engine.new input root .nativeV2 = .ok engine)
    (h' : Engine.new input' root .nativeV2 = .ok engine')
    (heq : input'.executions = input.executions) : engine' = engine := by
  have hconfig := sameConfig_of_new h h'
  obtain ⟨hexecutions, -, -, hmode, -, -⟩ := Engine.new_eq_ok h
  obtain ⟨hexecutions', -, -, hmode', -, -⟩ := Engine.new_eq_ok h'
  cases engine
  cases engine'
  obtain ⟨⟨hdepths, hpromotions⟩, -, -⟩ := hconfig
  simp only at *
  subst hexecutions hexecutions' hdepths hpromotions hmode hmode'
  rw [heq]

/-- The engines of a history and a later one know the same: up to its last position in any case,
and up to every position before that when it is ordered. -/
theorem lateFamily (h : Engine.new input root .nativeV2 = .ok engine)
    (h' : Engine.new input' root .nativeV2 = .ok engine')
    (hlate : LateEvents (LatePosition input.executions) requested input.executions
      input'.executions) (hne : input'.executions ≠ input.executions) {exempt : Prop}
    {levels : HistoryPosition → Prop}
    (hlevels : ∀ q, levels q → q ≤ lastPosition input.executions ∧
      (q = lastPosition input.executions ∨ Ordered input.executions))
    (down : exempt ∨ ∀ {q p}, levels q → p ≤ q → levels p) :
    EngineFamily exempt levels fun x => x = engine ∨ x = engine' := by
  obtain ⟨hexecutions, -, -, -, -, -⟩ := Engine.new_eq_ok h
  obtain ⟨hexecutions', -, -, -, -, -⟩ := Engine.new_eq_ok h'
  obtain ⟨p₀, hp₀, hnonempty⟩ := exists_late_of_ne hlate hne
  have hbound : ∀ e ∈ input.executions, ∀ p o, e.state = .settled p o →
      p < HistoryPosition.max := fun e he p o hstate =>
    (hp₀.1 e he p (settled_mem_positions hstate)).trans hp₀.2
  refine pairFamily (sameConfig_of_new h h') ?_ ⟨_, lt_max_iff_le.mpr le_rfl, ?_, ?_⟩ down
  · intro q hq
    obtain ⟨hle, hcases⟩ := hlevels q hq
    rw [hexecutions, hexecutions']
    refine lateEvents_alike hlate (fun p hp => hle.trans_lt (lastPosition_lt hnonempty hp.1)) ?_
    intro e he outcome hearly
    rcases hcases with rfl | hordered
    · exact le_lastPosition he (dispatch_mem_positions e)
    · have hoq := early_le hearly
      unfold early at hearly
      split at hearly
      case h_1 position o hstate =>
        split at hearly
        · cases hearly
          exact (hordered e he position o hstate).trans hoq
        · cases hearly
      all_goals cases hearly
  · intro e he p o hstate
    rw [hexecutions] at he
    exact lt_max_iff_le.mp (hbound e he p o hstate)
  · intro e he p o hstate
    rw [hexecutions'] at he
    refine lt_max_iff_le.mp ?_
    rcases settled_of_late hlate he hstate with hp | ⟨e₀, he₀, hstate₀⟩
    · exact hp.2
    · exact hbound e₀ he₀ p o hstate₀

/-- The settled positions of a history lie up to its last position. -/
theorem leafBound_lastPosition (h : Engine.new input root .nativeV2 = .ok engine)
    (cutoff : HistoryPosition) : LeafBound engine cutoff (lastPosition input.executions) := by
  refine leafBound_of_settled (fun e he p o hstate => ?_) cutoff
  rw [(Engine.new_eq_ok h).1] at he
  exact le_lastPosition he (settled_mem_positions hstate)

/-- Late events do not change a result that is not pending. -/
theorem walkRoot_late (h : Engine.new input root .nativeV2 = .ok engine)
    (h' : Engine.new input' root .nativeV2 = .ok engine')
    (hinitial : input'.initialInput = input.initialInput)
    (hlate : LateEvents (LatePosition input.executions) requested input.executions
      input'.executions) {status status' : Status} {c c' : Context} {log log' : List Effect}
    (hwalk : (engine.walkRoot root input.initialInput).Returns (status, c) log)
    (hwalk' : (engine'.walkRoot root input'.initialInput).Returns (status', c') log')
    (hne : status ≠ .pending) : status' = status := by
  rw [hinitial] at hwalk'
  by_cases heq : input'.executions = input.executions
  · rw [engine_eq_of_executions h h' heq] at hwalk'
    cases (hwalk.unique hwalk').1
    rfl
  · have hfamily : EngineFamily True (fun q => q = lastPosition input.executions)
        fun x => x = engine ∨ x = engine' :=
      lateFamily h h' hlate heq (fun q hq => ⟨hq.le, .inl hq⟩) (.inl trivial)
    have hwithin : Within (lastPosition input.executions) status := by
      refine eval_within (sameConfig_of_new h h').native root ?_ hwalk
      exact leafBound_lastPosition h _
    obtain ⟨hfalse, -⟩ | hknown := eval_tied hfamily root (.inl rfl) (.inr rfl) rfl (.inl rfl)
      (.same .decide) _ _ _ (Sync.refl rootTraversal) _ _ _ _ hwalk hwalk'
    · exact hfalse.elim
    · exact congrArg Prod.fst (eq_of_known_eq hknown (not_late_of_within hwithin le_rfl hne))

/-- A reduction that is not pending asks for no dispatch. -/
theorem idle_of_not_pending {reduction : Reduction} {status : Status} {c : Context}
    {log : List Effect} {progress : Progress} (h : Engine.new input root .nativeV2 = .ok engine)
    (hwalk : (engine.walkRoot root input.initialInput).Returns (status, c) log)
    (hreplay : Progress.replay input.executions log (initialProgress input) = .ok progress)
    (hreduction : reduction = finishReduction input.executions status progress)
    (hne : status ≠ .pending) : Progress.Idle reduction.decisions := by
  have hnative := (Engine.new_eq_ok h).2.2.2.1
  have hidle : Progress.Idle progress.decisions := by
    refine Progress.replay_idle ((eval_dispatch hnative root hwalk).noDispatch hne) ?_ hreplay
      fun _ h => nomatch h
    intro d hmem
    have hreport : d.isReport = true := eval_effects hnative root hwalk _ hmem
    cases d <;> first | rfl | cases hreport
  intro d hmem
  subst hreduction
  rcases List.mem_append.mp hmem with hmem | hmem
  · exact hidle d (Progress.mem_of_mem_canonicalize hmem)
  · cases hprojection : status.projection? with
    | none =>
      rw [hprojection] at hmem
      cases hmem
    | some projection =>
      rw [hprojection] at hmem
      rw [List.mem_singleton.mp hmem]
      rfl

/-- Late events add no fact to what an ordered history shows. -/
theorem walkRoot_facts (h : Engine.new input root .nativeV2 = .ok engine)
    (h' : Engine.new input' root .nativeV2 = .ok engine')
    (hinitial : input'.initialInput = input.initialInput) (hordered : Ordered input.executions)
    (hlate : LateEvents (LatePosition input.executions) requested input.executions
      input'.executions) {status status' : Status} {c c' : Context} {log log' : List Effect}
    (hwalk : (engine.walkRoot root input.initialInput).Returns (status, c) log)
    (hwalk' : (engine'.walkRoot root input'.initialInput).Returns (status', c') log') :
    facts log ⊆ facts log' := by
  rw [hinitial] at hwalk'
  by_cases heq : input'.executions = input.executions
  · rw [engine_eq_of_executions h h' heq] at hwalk'
    rw [(hwalk.unique hwalk').2]
    exact fun _ h => h
  · have hfamily : EngineFamily False (fun q => q ≤ lastPosition input.executions)
        fun x => x = engine ∨ x = engine' :=
      lateFamily h h' hlate heq (fun q hq => ⟨hq, .inr hordered⟩) (.inr fun hq hp => hp.trans hq)
    intro fact hfact
    obtain ⟨effect, heffect, hfact⟩ := mem_facts.mp hfact
    rw [← hwalk.log_eq] at heffect
    refine eval_facts hfamily root (.inl rfl) (.inr rfl) le_rfl (.inl rfl) ?_
      (.refl rootTraversal) hwalk' hfact heffect
    exact leafBound_lastPosition h _

/-- Late events do not change the winners of one visit whose join is reached. -/
theorem joinOutcome_late
    (hlate : LateEvents (LatePosition input.executions) requested input.executions
      input'.executions) {join : Join} {branches : List GraphNode} {context : Context}
    {t : Traversal} {outcome : List Nat × HistoryPosition}
    {outcome' : Option (List Nat × HistoryPosition)}
    (h : joinOutcome root input join branches context t = .ok (some outcome))
    (h' : joinOutcome root input' join branches context t = .ok outcome') :
    outcome' = some outcome := by
  simp only [joinOutcome, except_bind_eq_ok] at h h'
  obtain ⟨engine, hnew, probes, hprobes, h⟩ := h
  obtain ⟨engine', hnew', probes', hprobes', h'⟩ := h'
  by_cases heq : input'.executions = input.executions
  · cases engine_eq_of_executions hnew hnew' heq
    rw [hprobes] at hprobes'
    cases hprobes'
    rw [h] at h'
    cases h'
    rfl
  have hconfig := sameConfig_of_new hnew hnew'
  have hfamily : EngineFamily True (fun q => q = lastPosition input.executions)
      fun x => x = engine ∨ x = engine' :=
    lateFamily hnew hnew' hlate heq (fun q hq => ⟨hq.le, .inl hq⟩) (.inl trivial)
  have hrun : (probeParallel (branches.map engine.child) context t).Returns probes
      (probeParallel (branches.map engine.child) context t).log := by
    rw [Returns, ← hprobes]
  have hrun' : (probeParallel (branches.map engine'.child) context t).Returns probes'
      (probeParallel (branches.map engine'.child) context t).log := by
    rw [Returns, ← hprobes']
  have hknown : probes.map (known (lastPosition input.executions)) =
      probes'.map (known (lastPosition input.executions)) := by
    refine probes_known_eq (fun n _ => ?_) (Sync.refl t) hrun hrun'
    exact eval_tied hfamily n (.inl rfl) (.inr rfl) rfl (.inl rfl) (.same .probe)
  have hreached : parallelJoinRequired join probes.length ≤
      (engine.completions join t.mapIndices probes).length := by
    by_contra hfew
    rw [if_neg hfew] at h
    cases h
  have hearly : parallelJoinRequired join probes.length ≤
      ((engine.parallelCompletions join t.mapIndices 0 probes).filter
        fun e => e.2 ≤ lastPosition input.executions).length := by
    rw [Engine.completions, List.length_insertionSort] at hreached
    rwa [List.filter_eq_self.mpr]
    rintro ⟨i, p⟩ hmem
    obtain ⟨k, e, -, hk, -⟩ := mem_parallelCompletions.mp hmem
    obtain ⟨branch, inner, hbranch, hinner, -⟩ := forEach_get_result hrun hk
    obtain ⟨node, hnode, rfl⟩ := List.mem_map.mp (List.mem_of_getElem? hbranch)
    have hwithin : Within (lastPosition input.executions) (.continuing p) := by
      refine eval_within hconfig.native node ?_ hinner
      exact leafBound_lastPosition hnew _
    exact decide_eq_true (hwithin (by simp))
  obtain ⟨hwinners, -, -, hreached'⟩ := winners_eq hconfig hknown hearly
  rw [if_pos hreached] at h
  rw [if_pos hreached', ← hwinners] at h'
  cases h
  cases h'
  rfl

end

end Zeroshot
