import Zeroshot.Reducer.Engine

set_option autoImplicit false

/-!
# Evaluation

One function per group of the source, over the evaluators of its children, and `eval`, the
structural recursion that ties them together. An evaluator maps a context and a traversal to a
status and the updated context; a status that is not `continuing` makes the caller drop the
context.

A parallel or map group first evaluates its children in `probe` mode, which logs no decision, to
learn their statuses; only a second pass in `decide` mode asks for dispatches and voids.
-/

namespace Zeroshot

open Logged

abbrev Walk := Logged Effect ReducerError

abbrev Evaluator := Context → Traversal → Walk (Status × Context)

/-- A child node and its evaluator. -/
structure Child where
  node : GraphNode
  run : Evaluator

namespace Engine

/-! ## Guards -/

/-- `control_values`. A selector below the current map scope reads every item. -/
def controlValues (engine : Engine) (selector : ControlSelector) (context : Context)
    (mapIndices : List Nat) : List String :=
  let depth := (OrdMap.get? engine.mapDepths selector.name).getD 0
  (context.controls.filter fun entry =>
    entry.1.node == selector.name && entry.1.source == selector.source &&
      entry.1.field == selector.field.map Identifier.asStr &&
      if depth > mapIndices.length then
        mapIndices.isPrefixOf entry.1.mapIndices && entry.1.mapIndices.length == depth
      else entry.1.mapIndices == mapIndices.take depth).map fun entry => entry.2.asStr

/-- Some value of the selector is one of the labels. -/
def selectorIn (engine : Engine) (context : Context) (mapIndices : List Nat)
    (labels : NonEmptyEnumSet) (selector : ControlSelector) : Bool :=
  (engine.controlValues selector context mapIndices).any labels.contains

mutual

/-- `guard`. -/
def guard (engine : Engine) (context : Context) (mapIndices : List Nat) : Guard → Bool
  | .inLabels value labels => engine.selectorIn context mapIndices labels value
  | .all guards => guardAll engine context mapIndices guards
  | .any guards => guardAny engine context mapIndices guards
  | .not inner => !guard engine context mapIndices inner
  | .kOfN count values labels =>
    count.get ≤ (values.filter (engine.selectorIn context mapIndices labels)).length
  | .kOfMap count value labels =>
    count.get ≤ ((engine.controlValues value context mapIndices).filter labels.contains).length

def guardAll (engine : Engine) (context : Context) (mapIndices : List Nat) : List Guard → Bool
  | [] => true
  | inner :: guards =>
    guard engine context mapIndices inner && guardAll engine context mapIndices guards

def guardAny (engine : Engine) (context : Context) (mapIndices : List Nat) : List Guard → Bool
  | [] => false
  | inner :: guards =>
    guard engine context mapIndices inner || guardAny engine context mapIndices guards

end

/-! ## Controls and promotion -/

/-- `set_control`. -/
def setControl (engine : Engine) (node : NodeName) (source : ControlSource) (field : Option String)
    (label : String) (mapIndices : List Nat) (context : Context) : Context :=
  let depth := (OrdMap.get? engine.mapDepths node).getD 0
  { context with
    controls := OrdMap.insert ⟨node, source, field, mapIndices.take depth⟩ (.label label)
      context.controls }

/-- `set_group_control`. -/
def setGroupControl (engine : Engine) (node : NodeName) (field label : String)
    (mapIndices : List Nat) (context : Context) : Context :=
  engine.setControl node .group (some field) label mapIndices context

/-- `continue_decision`. -/
def continueDecision (node : NodeName) (mode : EvalMode) : Walk Unit :=
  match mode with
  | .decide => emit (.decision (.continues node))
  | .probe => pure ()

/-- A promotion decision, when there is something to promote. -/
def promoteDecision (node : NodeName) (mapIndices : List Nat) (values : List PromotedValue)
    (mode : EvalMode) : Walk Unit :=
  match mode, values with
  | .decide, _ :: _ => emit (.decision (.promote node mapIndices values))
  | _, _ => pure ()

/-- The optional promoted paths of a group. -/
def optionalPathsOf (engine : Engine) (node : NodeName) :
    Except ReducerError (OrdSet FieldPath) :=
  match OrdMap.get? engine.optionalPromotions node with
  | some optional => .ok optional
  | none => .error .inconsistentHistory

/-- `promote`: the parent context after a group with the given local context. -/
def promote (engine : Engine) (node : NodeName) (paths : List FieldPath) (local' parent : Context)
    (t : Traversal) : Walk Context := do
  let optional ← lift (engine.optionalPathsOf node)
  let promoted ← lift (promotePaths local' optional parent.state paths)
  promoteDecision node t.mapIndices promoted.2 t.mode
  pure (mergeRuntimeFacts local'
    { parent with
      state := promoted.1
      localWrites := OrdSet.extend parent.localWrites
        (promotedWritePaths local'.localWrites paths) })

/-! ## Executables -/

/-- `ExecutableSpec`. -/
structure ExecutableSpec where
  name : NodeName
  worker : WorkerRef
  inputBindings : List InputBinding
  writeBindings : List WriteBinding
  attemptCeiling : PositiveInteger
  verifier : Bool

def stepSpec (node : StepNode) : ExecutableSpec :=
  ⟨node.name, node.worker, node.inputBindings, node.writeBindings, node.attempts, false⟩

def verifierSpec (node : VerifierNode) : ExecutableSpec :=
  ⟨node.name, node.worker, node.inputBindings, node.writeBindings, node.attempts, true⟩

/-- `native_visit_executions` after `visit` visits: every first attempt opens a visit. -/
def nativeVisitExecutions (requested : Nat) : Nat → List DurableExecution → List DurableExecution
  | _, [] => []
  | visit, e :: executions =>
    let visit := if e.attempt.get = 1 then visit + 1 else visit
    if visit = requested then e :: nativeVisitExecutions requested visit executions
    else nativeVisitExecutions requested visit executions

/-- `ExecutableVisit`. -/
structure ExecutableVisit where
  occurrence : StructuralOccurrence
  matching : List DurableExecution
  executions : List DurableExecution
  number : Nat
  attempt : PositiveInteger
  existing : Option DurableExecution

/-- `VisitResolution`. -/
inductive VisitResolution
  | exhausted
  | ready (visit : ExecutableVisit)

/-- The legacy half of `resolve_visit`: a visit is one attempt. -/
def resolveLegacyVisit (spec : ExecutableSpec) (occurrence : StructuralOccurrence)
    (matched : List DurableExecution) (number : Nat) : Except ReducerError VisitResolution :=
  match PositiveInteger.new number with
  | none => .error .inconsistentHistory
  | some attempt =>
    if attempt.get > spec.attemptCeiling.get then .ok .exhausted
    else
      let existing := matched.find? fun e => e.attempt == attempt
      .ok (.ready ⟨occurrence, matched, existing.toList, number, attempt, existing⟩)

/-- The native half of `resolve_visit`: a visit is a first attempt with its retries. -/
def resolveNativeVisit (spec : ExecutableSpec) (occurrence : StructuralOccurrence)
    (matched : List DurableExecution) (number : Nat) : Except ReducerError VisitResolution :=
  let executions := nativeVisitExecutions number 0 matched
  let existing := executions.getLast?
  let attempt := (existing.map DurableExecution.attempt).getD PositiveInteger.one
  if attempt.get > spec.attemptCeiling.get then .error .inconsistentHistory
  else .ok (.ready ⟨occurrence, matched, executions, number, attempt, existing⟩)

/-- `resolve_visit`. -/
def resolveVisit (engine : Engine) (spec : ExecutableSpec) (context : Context)
    (mapIndices : List Nat) : Except ReducerError VisitResolution :=
  let occurrence : StructuralOccurrence := ⟨spec.name, mapIndices⟩
  let number := nextVisit spec.name mapIndices context.controls
  match engine.executionMode with
  | .legacyAttempts =>
    resolveLegacyVisit spec occurrence (sortByAttempt (matching engine.executions occurrence))
      number
  | .nativeV2 =>
    resolveNativeVisit spec occurrence (sortByDispatch (matching engine.executions occurrence))
      number

/-- Whether an evaluation may ask for dispatches. -/
def mayDispatch (t : Traversal) : Bool := t.mode == .decide && t.cutoff == HistoryPosition.max

/-- The boundary of a dispatch: the group's, or the visit itself. -/
def dispatchBoundary (spec : ExecutableSpec) (t : Traversal) (attempt : PositiveInteger) :
    ExecutionBoundary :=
  t.boundary.getD ⟨spec.name, t.mapIndices, t.loopIterations, attempt.get⟩

/-- `dispatch_missing`. -/
def dispatchMissing (spec : ExecutableSpec) (visit : ExecutableVisit) (input : Value)
    (t : Traversal) : Walk Unit :=
  if mayDispatch t then
    emit (.dispatch ⟨visit.matching.getLast?.map DurableExecution.nodeInstance,
      dispatchBoundary spec t visit.attempt, visit.occurrence, visit.attempt, t.loopIterations,
      spec.worker, input⟩)
  else pure ()

/-- `dispatch_retry`. -/
def dispatchRetry (spec : ExecutableSpec) (previous : DurableExecution) (input : Value)
    (t : Traversal) : Walk Unit :=
  if mayDispatch t then
    match PositiveInteger.new (previous.attempt.get + 1) with
    | none => fail .identityOutOfRange
    | some attempt =>
      emit (.dispatch ⟨some previous.nodeInstance, dispatchBoundary spec t attempt,
        previous.occurrence, attempt, t.loopIterations, spec.worker, input⟩)
  else pure ()

/-- Record every signal of a verifier outcome. -/
def setSignals (engine : Engine) (name : NodeName) (mapIndices : List Nat) :
    OrdMap FieldName EnumLabel → Context → Context
  | [], context => context
  | (field, label) :: signals, context =>
    setSignals engine name mapIndices signals
      (engine.setControl name .signal (some field.asStr) label.asStr mapIndices context)

/-- `apply_outcome`: the context after an outcome, and whether its writes were applied. -/
def applyOutcome (engine : Engine) (spec : ExecutableSpec) (mapIndices : List Nat)
    (outcome : WorkerOutcome) (context : Context) : Except ReducerError (Context × Bool) :=
  match outcome with
  | .error code _ =>
    .ok (engine.setControl spec.name .error none code.asStr mapIndices context, false)
  | .verified output _ =>
    if spec.verifier then .error .inconsistentHistory
    else do
      let context ← applyWrites context spec.name ⟨output, [], none⟩ spec.writeBindings mapIndices
      .ok (context, true)
  | .verifier output signals diagnostic _ =>
    if spec.verifier then do
      let context ← applyWrites (engine.setSignals spec.name mapIndices signals context) spec.name
        ⟨output, signals.map fun entry => (entry.1.asStr, entry.2.asStr), some diagnostic⟩
        spec.writeBindings mapIndices
      .ok (context, true)
    else .error .inconsistentHistory

/-- The values a settled executable wrote. -/
def writtenValues (state : Value) : List WriteBinding → Except ReducerError (List PromotedValue)
  | [] => .ok []
  | binding :: bindings => do
    let value ← select state binding.target
    let values ← writtenValues state bindings
    .ok (⟨binding.target, value⟩ :: values)

/-- `promote_writes`. -/
def promoteWrites (spec : ExecutableSpec) (context : Context) (t : Traversal) : Walk Unit :=
  if t.mode == .decide && !spec.writeBindings.isEmpty then do
    let values ← lift (writtenValues context.state spec.writeBindings)
    emit (.decision (.promote spec.name t.mapIndices values))
  else pure ()

/-- The outcome of an execution an evaluation may look at: settled, and dispatched and settled no
later than the cutoff. -/
def visibleOutcome (cutoff : HistoryPosition) (e : DurableExecution) :
    Option (HistoryPosition × WorkerOutcome) :=
  match e.state with
  | .settled position outcome =>
    if e.dispatchPosition ≤ cutoff ∧ position ≤ cutoff then some (position, outcome) else none
  | .active | .voided _ _ => none

/-- Whether a settled execution is followed by another attempt of the same visit. -/
def isRetried (engine : Engine) (spec : ExecutableSpec) (e : DurableExecution)
    (outcome : WorkerOutcome) : Bool :=
  engine.executionMode == .nativeV2 && outcome matches .error .crash _ &&
    e.attempt.get < spec.attemptCeiling.get

/-- `finish_existing_execution`. -/
def finishExistingExecution (engine : Engine) (spec : ExecutableSpec) (e : DurableExecution)
    (input : Value) : Evaluator := fun context t =>
  match visibleOutcome t.cutoff e with
  | none => pure (.pending, context)
  | some (position, outcome) =>
    if engine.isRetried spec e outcome then do
      dispatchRetry spec e input t
      pure (.pending, context)
    else do
      let applied ← lift (engine.applyOutcome spec t.mapIndices outcome context)
      if applied.2 then promoteWrites spec applied.1 t else pure ()
      continueDecision spec.name t.mode
      pure (.continuing position, applied.1)

/-- The label of `attempts_exhausted_reason`. -/
def attemptsExhaustedReason : EnumLabel := ⟨"attempts_exhausted", by decide⟩

/-- `eval_executable`. -/
def evalExecutable (engine : Engine) (spec : ExecutableSpec) : Evaluator := fun context t => do
  match ← lift (engine.resolveVisit spec context t.mapIndices) with
  | .exhausted =>
    pure (.terminal HistoryPosition.zero (.failed attemptsExhaustedReason none), context)
  | .ready visit =>
    let input ← lift (bindPayload spec.inputBindings context.state t.item)
    if visit.executions.any fun e => e.input != input then fail .inconsistentHistory
    else
      emit (.visit ⟨visit.occurrence, t.loopIterations, visit.number, input,
        visit.executions.map DurableExecution.execution⟩)
      let context := markVisit spec.name t.mapIndices visit.number context
      match visit.existing with
      | none =>
        dispatchMissing spec visit input t
        pure (.pending, context)
      | some e => engine.finishExistingExecution spec e input context t

/-! ## Sequences and choices -/

/-- The child loop of `eval_sequence`. -/
def runChildren : List Evaluator → HistoryPosition → Evaluator
  | [], position => fun local' _ => pure (.continuing position, local')
  | child :: rest, position => fun local' t => do
    let (status, local') ← child local' t
    match status with
    | .continuing childPosition => runChildren rest (max position childPosition) local' t
    | other => pure (other.after position, local')

/-- `eval_sequence`. -/
def evalSequence (engine : Engine) (group : Group) (children : List Evaluator) : Evaluator :=
  fun context t => do
    let (status, local') ← runChildren children HistoryPosition.zero context.clearWrites t
    match status with
    | .continuing position =>
      let context ← engine.promote group.name group.promotedStatePaths local' context t
      continueDecision group.name t.mode
      pure (.continuing position, context)
    | other => pure (other, context)

/-- The branch a choice takes: the first whose guard holds, else the fallback. -/
def selectBranch (engine : Engine) (context : Context) (mapIndices : List Nat)
    (branches : List (Guard × Evaluator)) (otherwise : Option Evaluator) : Option Evaluator :=
  ((branches.find? fun branch => engine.guard context mapIndices branch.1).map Prod.snd).or
    otherwise

/-- `eval_choice`. -/
def evalChoice (engine : Engine) (group : Group) (branches : List (Guard × Evaluator))
    (otherwise : Option Evaluator) : Evaluator := fun context t => do
  match engine.selectBranch context.clearWrites t.mapIndices branches otherwise with
  | none => fail .missingChoiceRoute
  | some selected =>
    let (status, local') ← selected context.clearWrites t
    match status with
    | .continuing position =>
      let context ← engine.promote group.name group.promotedStatePaths local' context t
      continueDecision group.name t.mode
      pure (.continuing position, mergeRuntimeFacts local' context)
    | other => pure (other, context)

/-! ## Loops -/

/-- How the iteration loop of `eval_loop` ends. -/
inductive LoopExit
  | stopped (status : Status)
  | completed (local' : Context) (position : HistoryPosition) (label : String)

/-- The iteration loop of `eval_loop`, with `remaining` iterations left from `iteration` on. -/
def runIterations (engine : Engine) (names : List NodeName) (body : Evaluator)
    (untilGuard : Option Guard) (t : Traversal) :
    Nat → Nat → HistoryPosition → Context → Walk LoopExit
  | 0, _, position, local' => pure (.completed local' position "exhausted")
  | remaining + 1, iteration, position, local' => do
    let (status, local') ← body (clearScopedRuntimeFacts names t.mapIndices local').clearWrites
      { t with loopIterations := t.loopIterations ++ [iteration] }
    match status with
    | .continuing bodyPosition =>
      let position := max position bodyPosition
      if untilGuard.any (engine.guard local' t.mapIndices) then
        pure (.completed local' position "converged")
      else runIterations engine names body untilGuard t remaining (iteration + 1) position local'
    | other => pure (.stopped (other.after position))

/-- `eval_loop` with `finish_loop`. -/
def evalLoop (engine : Engine) (group : Group) (body : Child) (untilGuard : Option Guard)
    (maxIterations : PositiveInteger) : Evaluator := fun context t => do
  let names := group.name :: body.node.names
  match ← engine.runIterations names body.run untilGuard t maxIterations.get 1
    HistoryPosition.zero context with
  | .stopped status => pure (status, context)
  | .completed local' position label =>
    let context ← engine.promote group.name group.promotedStatePaths
      (engine.setGroupControl group.name "terminated" label t.mapIndices local')
      (clearScopedRuntimeFacts names t.mapIndices context) t
    continueDecision group.name t.mode
    pure (.continuing position, context)

/-! ## Parallel groups -/

/-- `parallel_join_required`. -/
def parallelJoinRequired (join : Join) (branchCount : Nat) : Nat :=
  match join with
  | .all => branchCount
  | .any => 1
  | .first _ => 1
  | .quorum count => count.get

/-- `probe_parallel`. -/
def probeParallel (branches : List Child) (context : Context) (t : Traversal) :
    Walk (List (Status × Context)) :=
  forEach (fun branch => branch.run context.clearWrites { t with mode := .probe }) branches

/-- Whether a completed branch counts for the join. -/
def satisfiesJoin (engine : Engine) (join : Join) (mapIndices : List Nat) (branch : Context) :
    Bool :=
  match join with
  | .first guard => engine.guard branch mapIndices guard
  | .all | .any | .quorum _ => true

/-- `parallel_completions`: index and position of every branch that counts for the join. -/
def parallelCompletions (engine : Engine) (join : Join) (mapIndices : List Nat) :
    Nat → List (Status × Context) → List (Nat × HistoryPosition)
  | _, [] => []
  | index, (.continuing position, branch) :: probes =>
    if engine.satisfiesJoin join mapIndices branch then
      (index, position) :: parallelCompletions engine join mapIndices (index + 1) probes
    else parallelCompletions engine join mapIndices (index + 1) probes
  | index, _ :: probes => parallelCompletions engine join mapIndices (index + 1) probes

/-- The order of completions: position, then branch index. -/
def completedBefore (a b : Nat × HistoryPosition) : Prop := a.2 < b.2 ∨ a.2 = b.2 ∧ a.1 ≤ b.1

instance : DecidableRel completedBefore := fun a b =>
  inferInstanceAs (Decidable (a.2 < b.2 ∨ a.2 = b.2 ∧ a.1 ≤ b.1))

/-- The largest of some positions. -/
def latest (positions : List HistoryPosition) : HistoryPosition :=
  positions.foldr max HistoryPosition.zero

/-- `record_parallel_control`. -/
def recordParallelControl (engine : Engine) (group : Group) (join : Join) (reached : Bool)
    (mapIndices : List Nat) (context : Context) : Context :=
  match join with
  | .first _ =>
    engine.setGroupControl group.name "raced" (if reached then "satisfied" else "no_satisfier")
      mapIndices context
  | .all | .any | .quorum _ =>
    engine.setGroupControl group.name "joined" (if reached then "reached" else "quorum_unreachable")
      mapIndices context

/-- `unreached_parallel_join`, once the completions are known to be too few. A join that is still
open gets a `decide` pass over its branches; a settled one has no such pass. -/
def unreachedParallelJoin (engine : Engine) (group : Group) (join : Join) (branches : List Child)
    (probes : List (Status × Context)) : Evaluator := fun context t => do
  if probes.any fun probe => probe.1 == .pending then
    match t.mode with
    | .decide =>
      let _ ← forEach (fun branch => branch.run context t) branches
      pure (.pending, context)
    | .probe => pure (.pending, context)
  else
    continueDecision group.name t.mode
    let positions := probes.map fun probe => probe.1.position
    pure (.continuing (latest (positions.filter fun position => position != HistoryPosition.max)),
      engine.recordParallelControl group join false t.mapIndices context)

/-- The winner loop of `join_parallel_winners`. -/
def joinParallelWinners (group : Group) (branches : List Child) (context : Context)
    (t : Traversal) : List Nat → Context → Walk Context
  | [], joined => pure joined
  | index :: winners, joined => do
    match branches[index]? with
    | none => fail .inconsistentHistory
    | some branch =>
      let (status, local') ← branch.run context.clearWrites t
      match status with
      | .continuing _ =>
        let joined ← lift (copyWrites local' joined
          (promotedWritePaths local'.localWrites group.promotedStatePaths))
        joinParallelWinners group branches context t winners
          (mergeScopedRuntimeFacts branch.node.names t.mapIndices local' joined)
      | _ => fail .inconsistentHistory

/-- `emit_parallel_promotion`. -/
def emitParallelPromotion (engine : Engine) (group : Group) (joined : Context) (t : Traversal) :
    Walk Unit :=
  if t.mode == .decide && !group.promotedStatePaths.isEmpty then do
    let optional ← lift (engine.optionalPathsOf group.name)
    let values ← lift (promotedValues joined.state joined.localWrites optional
      group.promotedStatePaths)
    promoteDecision group.name t.mapIndices values t.mode
  else pure ()

/-- The void scopes of the branches from `index` on that did not win. -/
def loserScopes (t : Traversal) (position : HistoryPosition) (winners : List Nat) :
    Nat → List Child → List Effect
  | _, [] => []
  | index, branch :: branches =>
    if winners.contains index then loserScopes t position winners (index + 1) branches
    else
      .void ⟨branch.node.names, t.mapIndices, none, position, .parallelJoin, t.mode == .decide⟩ ::
        loserScopes t position winners (index + 1) branches

/-- `finish_parallel_join`. -/
def finishParallelJoin (engine : Engine) (group : Group) (join : Join) (branches : List Child)
    (required : Nat) (winners : List Nat) (position : HistoryPosition) (joined context : Context)
    (t : Traversal) : Walk (Status × Context) := do
  engine.emitParallelPromotion group joined t
  emit (.joined ⟨group.name, t.mapIndices, t.loopIterations, winners, position⟩)
  if required < branches.length then emitAll (loserScopes t position winners 0 branches)
  else pure ()
  continueDecision group.name t.mode
  pure (.continuing position,
    engine.recordParallelControl group join true t.mapIndices
      { joined with localWrites := OrdSet.extend joined.localWrites context.localWrites })

/-- `eval_parallel`. -/
def evalParallel (engine : Engine) (group : Group) (join : Join) (branches : List Child) :
    Evaluator := fun context t => do
  let probes ← probeParallel branches context t
  let completed := engine.parallelCompletions join t.mapIndices 0 probes
  let required := parallelJoinRequired join probes.length
  if completed.length < required then
    engine.unreachedParallelJoin group join branches probes context t
  else
    let winners := (completed.insertionSort completedBefore).take required
    let position := latest (winners.map Prod.snd)
    let joined ← joinParallelWinners group branches context { t with cutoff := position }
      (winners.map Prod.fst) context.clearWrites
    engine.finishParallelJoin group join branches required (winners.map Prod.fst) position joined
      context t

/-! ## Maps -/

/-- `MapItemResult`. -/
structure MapItemResult where
  status : Status
  context : Context
  scope : List Nat

/-- `evaluate_map_items`. -/
def evaluateMapItems (body : Evaluator) (context : Context) (t : Traversal) (items : List Value) :
    Walk (List MapItemResult) :=
  forEach (fun (item : Value × Nat) => do
    let scope := t.mapIndices ++ [item.2]
    let (status, itemContext) ← body context.clearWrites
      { t with mapIndices := scope, item := some item.1 }
    pure ⟨status, itemContext, scope⟩) items.zipIdx

/-- `earliest_terminal` among the results from `index` on: the terminal status with the least
position, and the first such. -/
def earliestTerminal : Nat → List MapItemResult → Option (Nat × Status)
  | _, [] => none
  | index, result :: results =>
    match result.status with
    | .terminal position _ =>
      match earliestTerminal (index + 1) results with
      | some (other, status) =>
        if position ≤ status.position then some (index, result.status) else some (other, status)
      | none => some (index, result.status)
    | .pending | .continuing _ => earliestTerminal (index + 1) results

/-- `finish_terminal_map_item`. -/
def finishTerminalMapItem (group : Group) (body : Child) (items : List Value) (index : Nat)
    (terminal : Status) : Evaluator := fun context t => do
  match items[index]? with
  | none => fail .inconsistentHistory
  | some item =>
    let scope := t.mapIndices ++ [index]
    let status ← match t.mode with
      | .decide => do
        let (status, _) ← body.run context
          { t with mapIndices := scope, item := some item, cutoff := terminal.position }
        pure status
      | .probe => pure terminal
    emit (.itemTerminated ⟨group.name, t.mapIndices, t.loopIterations, index, status.position⟩)
    emit (.void ⟨body.node.names, t.mapIndices, some scope, status.position, .mapTerminal,
      t.mode == .decide⟩)
    pure (status, context)

/-- Merge the facts of every item. -/
def mergeItems (names : List NodeName) : List MapItemResult → Context → Context
  | [], context => context
  | result :: results, context =>
    mergeItems names results (mergeScopedRuntimeFacts names result.scope result.context context)

/-- `finish_map`. -/
def finishMap (engine : Engine) (group : Group) (body : Child) (results : List MapItemResult) :
    Evaluator := fun context t => do
  let (local', collected) ← lift
    (collectItems (results.map MapItemResult.context) context group.promotedStatePaths)
  let context ← engine.promote group.name collected
    (engine.setGroupControl group.name "overflow" "ok" t.mapIndices local') context t
  continueDecision group.name t.mode
  pure (.continuing (latest (results.map fun result => result.status.position)),
    mergeItems body.node.names results context)

/-- `map_overflow`. -/
def mapOverflow (engine : Engine) (group : Group) : Evaluator := fun context t => do
  continueDecision group.name t.mode
  pure (.continuing HistoryPosition.zero,
    engine.setGroupControl group.name "overflow" "overflow" t.mapIndices context)

/-- The end of `eval_map` when no item is terminal. -/
def settleMap (engine : Engine) (group : Group) (body : Child) (results : List MapItemResult) :
    Evaluator := fun context t =>
  if results.any fun result => result.status == .pending then pure (.pending, context)
  else engine.finishMap group body results context t

/-- `eval_map`. -/
def evalMap (engine : Engine) (group : Group) (overItems : DataSelector)
    (maxItems : PositiveInteger) (body : Child) : Evaluator := fun context t => do
  let selected ← lift (selectData overItems context.state t.item)
  match selected.asArray with
  | none => fail .invalidDurableValue
  | some items =>
    if items.length > maxItems.get then engine.mapOverflow group context t
    else
      let probes ← evaluateMapItems body.run context { t with mode := .probe } items
      match earliestTerminal 0 probes with
      | some (index, terminal) => finishTerminalMapItem group body items index terminal context t
      | none =>
        match t.mode with
        | .probe => engine.settleMap group body probes context t
        | .decide =>
          let results ← evaluateMapItems body.run context t items
          engine.settleMap group body results context t

/-! ## Terminals -/

/-- The `succeed` half of `eval_terminal_node`. -/
def evalSucceed (node : SucceedNode) : Evaluator := fun context t => do
  let output ← lift (bindPayload node.bindings context.state t.item)
  pure (.terminal HistoryPosition.zero (.succeeded output), context)

/-- The `fail` half of `eval_terminal_node`. -/
def evalFail (node : FailNode) : Evaluator := fun context _ =>
  pure (.terminal HistoryPosition.zero (.failed node.reason.asLabel none), context)

/-! ## Nodes -/

/-- The outermost parallel or map visit is the boundary of everything below it. -/
def enterGroup (name : NodeName) (t : Traversal) : Traversal :=
  { t with boundary := some (t.boundary.getD ⟨name, t.mapIndices, t.loopIterations, 0⟩) }

mutual

/-- `eval`. -/
def eval (engine : Engine) : GraphNode → Evaluator
  | .step node => engine.evalExecutable (stepSpec node)
  | .verifier node => engine.evalExecutable (verifierSpec node)
  | .seq group children => engine.evalSequence group (evalAll engine children)
  | .choice group branches otherwise =>
    engine.evalChoice group (evalBranches engine branches) (evalOption engine otherwise)
  | .par group branches join => fun context t =>
    engine.evalParallel group join (evalChildren engine branches) context (enterGroup group.name t)
  | .loop group body untilGuard maxIterations _ =>
    engine.evalLoop group ⟨body, eval engine body⟩ untilGuard maxIterations
  | .map group body overItems maxItems => fun context t =>
    engine.evalMap group overItems maxItems ⟨body, eval engine body⟩ context
      (enterGroup group.name t)
  | .succeed node => evalSucceed node
  | .fail node => evalFail node

def evalAll (engine : Engine) : List GraphNode → List Evaluator
  | [] => []
  | node :: nodes => eval engine node :: evalAll engine nodes

def evalChildren (engine : Engine) : List GraphNode → List Child
  | [] => []
  | node :: nodes => ⟨node, eval engine node⟩ :: evalChildren engine nodes

def evalBranches (engine : Engine) : List (Guard × GraphNode) → List (Guard × Evaluator)
  | [] => []
  | (guard, node) :: branches => (guard, eval engine node) :: evalBranches engine branches

def evalOption (engine : Engine) : Option GraphNode → Option Evaluator
  | none => none
  | some node => some (eval engine node)

end

theorem evalAll_eq (engine : Engine) (nodes : List GraphNode) :
    evalAll engine nodes = nodes.map engine.eval := by
  induction nodes with
  | nil => rfl
  | cons node nodes ih => rw [evalAll, ih, List.map_cons]

/-- A node with its evaluator. -/
def child (engine : Engine) (node : GraphNode) : Child := ⟨node, engine.eval node⟩

theorem evalChildren_eq (engine : Engine) (nodes : List GraphNode) :
    evalChildren engine nodes = nodes.map engine.child := by
  induction nodes with
  | nil => rfl
  | cons node nodes ih => rw [evalChildren, ih, List.map_cons, child]

theorem evalBranches_eq (engine : Engine) (branches : List (Guard × GraphNode)) :
    evalBranches engine branches = branches.map fun branch => (branch.1, engine.eval branch.2) := by
  induction branches with
  | nil => rfl
  | cons branch branches ih => rw [evalBranches, ih, List.map_cons]

theorem evalOption_eq (engine : Engine) (otherwise : Option GraphNode) :
    evalOption engine otherwise = otherwise.map engine.eval := by
  cases otherwise <;> rfl

end Engine

/-! ## Reduction -/

structure Reduction where
  boundary : Option ExecutionBoundary
  decisions : List Decision
  terminal : Option TerminalResult
  deriving DecidableEq, Repr

structure ReductionInput where
  initialInput : Value
  executions : List DurableExecution
  nextNodeInstance : Nat
  nextExecution : Nat

/-- The admission check of `Engine::new` on one execution. -/
def executionAdmitted (input : ReductionInput) (depths : OrdMap NodeName Nat)
    (e : DurableExecution) : Bool :=
  decide (e.execution.get < input.nextExecution) &&
    decide (e.nodeInstance.get < input.nextNodeInstance) &&
    OrdMap.get? depths e.occurrence.node == some e.occurrence.mapIndices.length

/-- `Engine::new`. -/
def Engine.new (input : ReductionInput) (root : GraphNode) (mode : ExecutionMode) :
    Except ReducerError Engine :=
  if !validateHistoryForMode input.executions mode then .error .inconsistentHistory
  else
    match collectOptionalPromotions root.descendants [] with
    | .error error => .error error
    | .ok optionalPromotions =>
      if input.executions.all (executionAdmitted input (collectExecutableDepths root)) then
        .ok ⟨input.executions, collectMapDepths root, optionalPromotions, mode⟩
      else .error .inconsistentHistory

/-- The traversal and the state the root is evaluated with. -/
def rootTraversal : Traversal := ⟨[], [], none, none, .decide, HistoryPosition.max⟩

def initialState (root : GraphNode) (initialInput : Value) : Value :=
  match root.state with
  | some state => state.materializeMissingFields initialInput
  | none => initialInput

/-- The evaluation of the root. -/
def Engine.walkRoot (engine : Engine) (root : GraphNode) (initialInput : Value) :
    Walk (Status × Context) :=
  engine.eval root (Context.new (initialState root initialInput)) rootTraversal

def initialProgress (input : ReductionInput) : Progress :=
  ⟨none, input.nextNodeInstance, input.nextExecution, [], [], []⟩

def Status.projection? : Status → Option TerminalResult
  | .terminal _ projection => some projection
  | .pending | .continuing _ => none

/-- The reduction of a finished evaluation. -/
def finishReduction (executions : List DurableExecution) (status : Status) (progress : Progress) :
    Reduction :=
  let decisions := Progress.canonicalizeVoidDecisions executions progress.decisions
  ⟨progress.boundary, decisions ++ (status.projection?.map Decision.terminal).toList,
    status.projection?⟩

/-- `FullV1Reducer::reduce`. -/
def reduce (mode : ExecutionMode) (root : GraphNode) (input : ReductionInput) :
    Except ReducerError Reduction := do
  let engine ← Engine.new input root mode
  let walk := engine.walkRoot root input.initialInput
  -- Effects come first: one that fails does so before the evaluation gets any further.
  let progress ← Progress.replay input.executions walk.log (initialProgress input)
  let (status, _) ← walk.result
  if Progress.historyConsumed input.executions progress then
    .ok (finishReduction input.executions status progress)
  else .error .inconsistentHistory

end Zeroshot
