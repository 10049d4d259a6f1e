import Zeroshot.Lib.Entries
import Zeroshot.Reducer.Effects

set_option autoImplicit false

/-!
# Where facts come from

The facts of a log are the visits, reached joins and terminal items an evaluation comes across. An
evaluation that fails has logged what it came across before. Whether it succeeds or fails, a fact is
an executable's own or comes from the evaluation of a child, after the evaluations before that one
returned; there is one such lemma for each kind of node.
-/

namespace Zeroshot

open Logged

/-- A visit of an executable, a reached join or a terminal item. -/
inductive Fact
  | visited (occurrence : StructuralOccurrence) (loopIterations : List Nat) (number : Nat)
      (input : Value)
  | joined (record : JoinRecord)
  | itemTerminated (record : ItemRecord)

def Effect.fact? : Effect → Option Fact
  | .visit v => some (.visited v.occurrence v.loopIterations v.number v.input)
  | .joined record => some (.joined record)
  | .itemTerminated record => some (.itemTerminated record)
  | .dispatch _ | .void _ | .decision _ => none

/-- The facts of a log, in order. -/
def facts (log : List Effect) : List Fact := log.filterMap Effect.fact?

theorem mem_facts {log : List Effect} {fact : Fact} :
    fact ∈ facts log ↔ ∃ effect ∈ log, effect.fact? = some fact := List.mem_filterMap

theorem facts_mono {first second : List Effect} (h : first ⊆ second) :
    facts first ⊆ facts second := by
  intro fact hfact
  obtain ⟨effect, hmem, heffect⟩ := mem_facts.mp hfact
  exact mem_facts.mpr ⟨effect, h hmem, heffect⟩

namespace Engine

/-! ## What a node logs itself -/

/-- `P` holds of what a node logs under a traversal besides facts. -/
structure Own (P : Effect → Prop) (t : Traversal) : Prop where
  void : ∀ s, P (.void s)
  decision : t.mode = .decide → ∀ d, P (.decision d)
  dispatch : mayDispatch t = true → ∀ r : DispatchRequest,
    (∀ boundary, t.boundary = some boundary → r.boundary = boundary) → P (.dispatch r)

theorem own_ne {effect : Effect} {fact : Fact} (hfact : effect.fact? = some fact) (t : Traversal) :
    Own (fun other => other ≠ effect) t where
  void _ h := by
    rw [← h] at hfact
    cases hfact
  decision _ _ h := by
    rw [← h] at hfact
    cases hfact
  dispatch _ _ _ h := by
    rw [← h] at hfact
    cases hfact

section

variable {engine : Engine} {P : Effect → Prop} {t : Traversal}
  (hdecision : t.mode = .decide → ∀ d, P (.decision d))
include hdecision

theorem continueDecision_entries (name : NodeName) : Entries P (continueDecision name t.mode) := by
  cases hmode : t.mode with
  | decide => exact .emit (hdecision hmode _)
  | probe => exact .pure _

theorem promoteDecision_entries (name : NodeName) (mapIndices : List Nat)
    (values : List PromotedValue) : Entries P (promoteDecision name mapIndices values t.mode) := by
  cases hmode : t.mode with
  | decide =>
    cases values with
    | nil => exact .pure _
    | cons value values => exact .emit (hdecision hmode _)
  | probe => exact .pure _

theorem promoteWrites_entries (spec : ExecutableSpec) (context : Context) :
    Entries P (promoteWrites spec context t) := by
  unfold promoteWrites
  split
  case isTrue hmode =>
    rw [Bool.and_eq_true, beq_iff_eq] at hmode
    exact .bind (.lift _) fun values => .emit (hdecision hmode.1 _)
  case isFalse => exact .pure _

/-- What a group does after its children. -/
theorem close_entries {α : Type} (name : NodeName) (paths : List FieldPath)
    (local' parent : Context) (f : Context → α) : Entries P (do
      let context ← engine.promote name paths local' parent t
      continueDecision name t.mode
      pure (f context) : Walk α) := by
  refine .bind ?_ fun _ => .bind (continueDecision_entries hdecision _) fun _ => .pure _
  refine .bind (.lift _) fun optional => .bind (.lift _) fun promoted => ?_
  exact .bind (promoteDecision_entries hdecision _ _ _) fun _ => .pure _

end

theorem dispatchBoundary_eq (spec : ExecutableSpec) {t : Traversal} (attempt : PositiveInteger)
    {boundary : ExecutionBoundary} (h : t.boundary = some boundary) :
    dispatchBoundary spec t attempt = boundary := by
  rw [dispatchBoundary, h]
  rfl

section

variable {engine : Engine} {P : Effect → Prop} {t : Traversal} (hown : Own P t)
include hown

theorem dispatchMissing_entries (spec : ExecutableSpec) (visit : ExecutableVisit) (input : Value) :
    Entries P (dispatchMissing spec visit input t) := by
  unfold dispatchMissing
  split
  case isTrue hmay =>
    exact .emit (hown.dispatch hmay _ fun _ hb => dispatchBoundary_eq spec visit.attempt hb)
  case isFalse => exact .pure _

theorem dispatchRetry_entries (spec : ExecutableSpec) (previous : DurableExecution)
    (input : Value) : Entries P (dispatchRetry spec previous input t) := by
  unfold dispatchRetry
  split
  case isTrue hmay =>
    split
    · exact .fail _
    · exact .emit (hown.dispatch hmay _ fun _ hb => dispatchBoundary_eq spec _ hb)
  case isFalse => exact .pure _

theorem finishExistingExecution_entries (spec : ExecutableSpec) (e : DurableExecution)
    (input : Value) (context : Context) :
    Entries P (engine.finishExistingExecution spec e input context t) := by
  unfold finishExistingExecution
  split
  · exact .pure _
  split
  · exact .bind (dispatchRetry_entries hown spec _ input) fun _ => .pure _
  · refine .bind (.lift _) fun applied => ?_
    dsimp only
    split
    · exact .bind (promoteWrites_entries hown.decision spec _) fun _ =>
        .bind (continueDecision_entries hown.decision _) fun _ => .pure _
    · exact .bind (continueDecision_entries hown.decision _) fun _ => .pure _

theorem finishParallelJoin_entries (group : Group) (join : Join) (branches : List Child)
    (required : Nat) (winners : List Nat) (position : HistoryPosition) (joined context : Context)
    (hjoined : P (joinRecord group t winners position)) :
    Entries P (engine.finishParallelJoin group join branches required winners position joined
      context t) := by
  unfold finishParallelJoin
  refine .bind ?_ fun _ => .bind (.emit hjoined) fun _ => ?_
  · unfold emitParallelPromotion
    split
    · exact .bind (.lift _) fun _ => .bind (.lift _) fun _ =>
        promoteDecision_entries hown.decision _ _ _
    · exact .pure _
  · dsimp only
    split
    · refine .bind (.emitAll fun effect heffect => ?_) fun _ =>
        .bind (continueDecision_entries hown.decision _) fun _ => .pure _
      obtain ⟨k, branch, -, -, rfl⟩ := mem_loserScopes heffect
      exact hown.void _
    · exact .bind (continueDecision_entries hown.decision _) fun _ => .pure _

/-- What a map logs once it ends with a terminal item. -/
theorem terminalItem_entries (group : Group) (names : List NodeName) (index : Nat)
    (status : Status) (context : Context) (emitted : Bool)
    (hitem : P (itemRecord group t index status.position)) : Entries P (do
      emit (.itemTerminated ⟨group.name, t.mapIndices, t.loopIterations, index, status.position⟩)
      emit (.void ⟨names, t.mapIndices, some (t.mapIndices ++ [index]), status.position,
        .mapTerminal, emitted⟩)
      pure (status, context) : Walk (Status × Context)) :=
  .bind (.emit hitem) fun _ => .bind (.emit (hown.void _)) fun _ => .pure _

theorem settleMap_entries (group : Group) (body : Child) (results : List MapItemResult)
    (context : Context) : Entries P (engine.settleMap group body results context t) := by
  unfold settleMap
  split
  · exact .pure _
  · refine .bind (.lift _) fun (local', collected) => ?_
    exact close_entries hown.decision _ _ _ _ _

end

/-! ## Leaves, sequences, choices and loops -/

section

variable {engine : Engine} {context : Context} {t : Traversal} {effect : Effect} {fact : Fact}

/-- An executable comes across one visit, numbered after the counter of its context. -/
theorem evalExecutable_fact (hmode : engine.executionMode = .nativeV2) {spec : ExecutableSpec}
    (hfact : effect.fact? = some fact) (h : effect ∈ (engine.evalExecutable spec context t).log) :
    ∃ input, bindPayload spec.inputBindings context.state t.item = .ok input ∧
      effect = .visit ⟨⟨spec.name, t.mapIndices⟩, t.loopIterations,
        nextVisit spec.name t.mapIndices context.controls, input,
        (engine.visitExecutions ⟨spec.name, t.mapIndices⟩
          (nextVisit spec.name t.mapIndices context.controls)).map
            DurableExecution.execution⟩ := by
  have hown := own_ne hfact t
  rcases mem_log_bind h with h | ⟨resolution, hresolution, h⟩
  · cases h
  obtain ⟨hresolution, -⟩ := returns_lift.mp hresolution
  simp only [resolveVisit, hmode, resolveNativeVisit] at hresolution
  split at hresolution
  · cases hresolution
  cases hresolution
  rcases mem_log_bind h with h | ⟨input, hinput, h⟩
  · cases h
  obtain ⟨hinput, -⟩ := returns_lift.mp hinput
  refine ⟨input, hinput, ?_⟩
  split at h
  · cases h
  rcases mem_log_bind h with h | ⟨_, -, h⟩
  · exact List.mem_singleton.mp h
  -- what follows the visit is no fact
  dsimp only at h
  split at h
  · rcases mem_log_bind h with h | ⟨_, -, h⟩
    · exact absurd h (Entries.not_mem (dispatchMissing_entries hown _ _ _))
    · cases h
  · exact absurd h (Entries.not_mem (finishExistingExecution_entries hown _ _ _ _))

theorem mem_runChildren_log {child : Evaluator} {rest : List Evaluator}
    {position : HistoryPosition}
    (h : effect ∈ (runChildren (child :: rest) position context t).log) :
    effect ∈ (child context t).log ∨ ∃ p c,
      (child context t).Returns (.continuing p, c) (child context t).log ∧
      effect ∈ (runChildren rest (max position p) c t).log := by
  rcases mem_log_bind h with h | ⟨⟨status, c⟩, hrun, h⟩
  · exact .inl h
  · cases status with
    | continuing p => exact .inr ⟨p, c, hrun, h⟩
    | pending => cases h
    | terminal p r => cases h

theorem evalSequence_fact {group : Group} {children : List Evaluator}
    (hfact : effect.fact? = some fact)
    (h : effect ∈ (engine.evalSequence group children context t).log) :
    effect ∈ (runChildren children HistoryPosition.zero context.clearWrites t).log := by
  rcases mem_log_bind h with h | ⟨⟨status, local'⟩, -, h⟩
  · exact h
  · cases status with
    | continuing p =>
      exact absurd h (Entries.not_mem (close_entries (own_ne hfact t).decision _ _ _ _ _))
    | pending => cases h
    | terminal p r => cases h

theorem evalChoice_fact {group : Group} {branches : List (Guard × GraphNode)}
    {otherwise : Option GraphNode} (hfact : effect.fact? = some fact)
    (h : effect ∈ (engine.eval (.choice group branches otherwise) context t).log) :
    ∃ node, engine.selectNode context.clearWrites t.mapIndices branches otherwise = some node ∧
      effect ∈ (engine.eval node context.clearWrites t).log := by
  rw [eval, evalBranches_eq, evalOption_eq, evalChoice, selectBranch_eq] at h
  split at h
  · cases h
  · rename_i selected hselected
    obtain ⟨node, hnode, rfl⟩ := Option.map_eq_some_iff.mp hselected
    refine ⟨node, hnode, ?_⟩
    rcases mem_log_bind h with h | ⟨⟨status, local'⟩, -, h⟩
    · exact h
    · cases status with
      | continuing p =>
        exact absurd h (Entries.not_mem (close_entries (own_ne hfact t).decision _ _ _ _ _))
      | pending => cases h
      | terminal p r => cases h

theorem mem_runIterations_log {names : List NodeName} {body : Evaluator}
    {untilGuard : Option Guard} {remaining iteration : Nat} {position : HistoryPosition}
    (h : effect ∈ (engine.runIterations names body untilGuard t (remaining + 1) iteration position
      context).log) :
    effect ∈ (body (iterationContext names t context) (iterationTraversal t iteration)).log ∨
      ∃ p c, (body (iterationContext names t context) (iterationTraversal t iteration)).Returns
        (.continuing p, c)
        (body (iterationContext names t context) (iterationTraversal t iteration)).log ∧
      untilGuard.any (engine.guard c t.mapIndices) = false ∧
      effect ∈ (engine.runIterations names body untilGuard t remaining (iteration + 1)
        (max position p) c).log := by
  rcases mem_log_bind h with h | ⟨⟨status, c⟩, hrun, h⟩
  · exact .inl h
  · cases status with
    | continuing p =>
      dsimp only at h
      split at h
      case isTrue => cases h
      case isFalse hguard => exact .inr ⟨p, c, hrun, Bool.eq_false_iff.mpr hguard, h⟩
    | pending => cases h
    | terminal p r => cases h

theorem evalLoop_fact {group : Group} {body : Child} {untilGuard : Option Guard}
    {maxIterations : PositiveInteger} (hfact : effect.fact? = some fact)
    (h : effect ∈ (engine.evalLoop group body untilGuard maxIterations context t).log) :
    effect ∈ (engine.runIterations (group.name :: body.node.names) body.run untilGuard t
      maxIterations.get 1 HistoryPosition.zero context).log := by
  rcases mem_log_bind h with h | ⟨exit, -, h⟩
  · exact h
  · cases exit with
    | stopped status => cases h
    | completed local' position label =>
      exact absurd h (Entries.not_mem (close_entries (own_ne hfact t).decision _ _ _ _ _))

theorem evalSucceed_fact {node : SucceedNode} (h : effect ∈ (evalSucceed node context t).log) :
    False := by
  rcases mem_log_bind h with h | ⟨_, -, h⟩ <;> cases h

end

/-! ## Parallel groups and maps -/

section

variable {engine : Engine} {context : Context} {t : Traversal} {effect : Effect} {fact : Fact}

/-- Where a fact of a parallel group comes from: the probe of a branch, the `decide` pass over an
open join, the evaluation of a winner, or the join itself. -/
inductive ParallelSource (engine : Engine) (group : Group) (join : Join) (branches : List Child)
    (context : Context) (t : Traversal) (effect : Effect) : Prop
  | probed (k : Nat) (branch : Child) (hk : branches[k]? = some branch)
      (h : effect ∈ (branch.run context.clearWrites { t with mode := .probe }).log)
  | decided (k : Nat) (branch : Child) (hk : branches[k]? = some branch)
      (probes : List (Status × Context)) (plog : List Effect)
      (hprobes : (probeParallel branches context t).Returns probes plog)
      (h : effect ∈ (branch.run context t).log)
  | won (k : Nat) (branch : Child) (hk : branches[k]? = some branch)
      (probes : List (Status × Context)) (plog : List Effect)
      (hprobes : (probeParallel branches context t).Returns probes plog)
      (h : effect ∈ (branch.run context.clearWrites
        { t with
          cutoff := latest ((engine.winnersOf join t.mapIndices probes).map Prod.snd) }).log)
  | joined (probes : List (Status × Context)) (plog : List Effect)
      (hprobes : (probeParallel branches context t).Returns probes plog)
      (hmany : parallelJoinRequired join probes.length ≤
        (engine.completions join t.mapIndices probes).length)
      (h : effect = joinRecord group t ((engine.winnersOf join t.mapIndices probes).map Prod.fst)
        (latest ((engine.winnersOf join t.mapIndices probes).map Prod.snd)))

theorem mem_joinParallelWinners_log {group : Group} {branches : List Child} {winners : List Nat}
    {joined : Context}
    (h : effect ∈ (joinParallelWinners group branches context t winners joined).log) :
    ∃ (k : Nat) (branch : Child), branches[k]? = some branch ∧
      effect ∈ (branch.run context.clearWrites t).log := by
  induction winners generalizing joined with
  | nil => cases h
  | cons index winners ih =>
    unfold joinParallelWinners at h
    split at h
    · cases h
    · rename_i branch hbranch
      rcases mem_log_bind h with h | ⟨⟨status, local'⟩, -, h⟩
      · exact ⟨index, branch, hbranch, h⟩
      · cases status with
        | continuing p =>
          rcases mem_log_bind h with h | ⟨copied, -, h⟩
          · cases h
          · exact ih h
        | pending => cases h
        | terminal p r => cases h

theorem evalParallel_fact {group : Group} {join : Join} {branches : List Child}
    (hfact : effect.fact? = some fact)
    (h : effect ∈ (engine.evalParallel group join branches context t).log) :
    ParallelSource engine group join branches context t effect := by
  have hown := own_ne hfact t
  rcases mem_log_bind h with h | ⟨probes, hprobes, h⟩
  · obtain ⟨branch, hbranch, h⟩ := mem_log_forEach h
    obtain ⟨k, hk⟩ := List.getElem?_of_mem hbranch
    exact .probed k branch hk h
  dsimp only at h
  split at h
  · unfold unreachedParallelJoin at h
    dsimp only at h
    split at h
    · cases hmode : t.mode with
      | probe =>
        rw [hmode] at h
        cases h
      | decide =>
        rw [hmode] at h
        rcases mem_log_bind h with h | ⟨results, -, h⟩
        · obtain ⟨branch, hbranch, h⟩ := mem_log_forEach h
          obtain ⟨k, hk⟩ := List.getElem?_of_mem hbranch
          exact .decided k branch hk probes _ hprobes h
        · cases h
    · rcases mem_log_bind h with h | ⟨_, -, h⟩
      · exact absurd h (Entries.not_mem (continueDecision_entries hown.decision _))
      · cases h
  · rename_i hmany
    rcases mem_log_bind h with h | ⟨joined, -, h⟩
    · obtain ⟨k, branch, hk, h⟩ := mem_joinParallelWinners_log h
      exact .won k branch hk probes _ hprobes h
    · refine .joined probes _ hprobes ?_ ?_
      · rw [Engine.completions, List.length_insertionSort]
        exact not_lt.mp hmany
      · by_contra hne
        exact Entries.not_mem (finishParallelJoin_entries hown _ _ _ _ _ _ _ _ (Ne.symm hne)) h

/-- Where a fact of a map comes from: the probe of an item, the `decide` pass over the items or
that over the first terminal item, or that item's end. -/
inductive MapSource (group : Group) (body : Child) (context : Context) (t : Traversal)
    (items : List Value) (effect : Effect) : Prop
  | probed (k : Nat) (item : Value) (hk : items[k]? = some item)
      (h : effect ∈ (body.run context.clearWrites
        (itemTraversal { t with mode := .probe } (item, k))).log)
  | decided (k : Nat) (item : Value) (hk : items[k]? = some item) (probes : List MapItemResult)
      (plog : List Effect)
      (hprobes : (evaluateMapItems body.run context { t with mode := .probe } items).Returns
        probes plog)
      (h : effect ∈ (body.run context.clearWrites (itemTraversal t (item, k))).log)
  | terminal (k : Nat) (item : Value) (hk : items[k]? = some item) (probes : List MapItemResult)
      (plog : List Effect) (found : Status)
      (hprobes : (evaluateMapItems body.run context { t with mode := .probe } items).Returns
        probes plog)
      (hfound : earliestTerminal 0 probes = some (k, found)) (hmode : t.mode = .decide)
      (h : effect ∈ (body.run context (terminalTraversal t (item, k) found.position)).log)
  | ended (k : Nat) (item : Value) (hk : items[k]? = some item) (probes : List MapItemResult)
      (plog : List Effect) (found status : Status)
      (hprobes : (evaluateMapItems body.run context { t with mode := .probe } items).Returns
        probes plog)
      (hfound : earliestTerminal 0 probes = some (k, found))
      (hrun : t.mode = .probe ∧ status = found ∨ t.mode = .decide ∧ ∃ d log,
        (body.run context (terminalTraversal t (item, k) found.position)).Returns (status, d) log)
      (h : effect = itemRecord group t k status.position)

theorem mem_evaluateMapItems_log {body : Evaluator} {items : List Value}
    (h : effect ∈ (evaluateMapItems body context t items).log) :
    ∃ k item, items[k]? = some item ∧
      effect ∈ (body context.clearWrites (itemTraversal t (item, k))).log := by
  obtain ⟨⟨item, k⟩, hitem, h⟩ := mem_log_forEach h
  rcases mem_log_bind h with h | ⟨result, -, h⟩
  · exact ⟨k, item, List.mk_mem_zipIdx_iff_getElem?.mp hitem, h⟩
  · cases h

theorem evalMap_fact {group : Group} {overItems : DataSelector} {maxItems : PositiveInteger}
    {body : Child} (hfact : effect.fact? = some fact)
    (h : effect ∈ (engine.evalMap group overItems maxItems body context t).log) :
    ∃ selected items, selectData overItems context.state t.item = .ok selected ∧
      selected.asArray = some items ∧ items.length ≤ maxItems.get ∧
      MapSource group body context t items effect := by
  have hown := own_ne hfact t
  rcases mem_log_bind h with h | ⟨selected, hselected, h⟩
  · cases h
  obtain ⟨hselected, -⟩ := returns_lift.mp hselected
  split at h
  · cases h
  rename_i items hitems
  split at h
  · rcases mem_log_bind h with h | ⟨_, -, h⟩
    · exact absurd h (Entries.not_mem (continueDecision_entries hown.decision _))
    · cases h
  rename_i hfit
  refine ⟨selected, items, hselected, hitems, Nat.le_of_not_lt hfit, ?_⟩
  rcases mem_log_bind h with h | ⟨probes, hprobes, h⟩
  · obtain ⟨k, item, hitem, h⟩ := mem_evaluateMapItems_log h
    exact .probed k item hitem h
  split at h
  · rename_i index found hfound
    unfold finishTerminalMapItem at h
    dsimp only at h
    split at h
    · cases h
    rename_i item hitem
    have hended : ∀ (status : Status) (emitted : Bool), effect ∈ (do
        emit (.itemTerminated ⟨group.name, t.mapIndices, t.loopIterations, index,
          status.position⟩)
        emit (.void ⟨body.node.names, t.mapIndices, some (t.mapIndices ++ [index]),
          status.position, .mapTerminal, emitted⟩)
        pure (status, context) : Walk (Status × Context)).log →
        effect = itemRecord group t index status.position := by
      intro status emitted h
      by_contra hne
      exact Entries.not_mem (terminalItem_entries hown _ _ _ status _ _ (Ne.symm hne)) h
    cases hmode : t.mode with
    | decide =>
      rw [hmode] at h
      have hbody : terminalTraversal t (item, index) found.position =
          { t with
            mode := .decide, mapIndices := t.mapIndices ++ [index], item := some item
            cutoff := found.position } := by
        rw [terminalTraversal, hmode]
      rcases mem_log_bind h with h | ⟨⟨status, c⟩, hrun, h⟩
      · exact .terminal index item hitem probes _ found hprobes hfound hmode (hbody ▸ h)
      · exact .ended index item hitem probes _ found status hprobes hfound
          (.inr ⟨hmode, c, _, hbody ▸ hrun⟩) (hended status _ h)
    | probe =>
      rw [hmode] at h
      rcases mem_log_bind h with h | ⟨status, hstatus, h⟩
      · cases h
      · obtain ⟨rfl, -⟩ := returns_pure.mp hstatus
        exact .ended index item hitem probes _ _ _ hprobes hfound (.inl ⟨hmode, rfl⟩)
          (hended _ _ h)
  · cases hmode : t.mode with
    | probe =>
      rw [hmode] at h
      exact absurd h (Entries.not_mem (settleMap_entries hown _ _ _ _))
    | decide =>
      rw [hmode] at h
      rcases mem_log_bind h with h | ⟨results, -, h⟩
      · obtain ⟨k, item, hitem, h⟩ := mem_evaluateMapItems_log h
        exact .decided k item hitem probes _ hprobes h
      · exact absurd h (Entries.not_mem (settleMap_entries hown _ _ _ _))

end

end Engine

end Zeroshot
