import Zeroshot.Verifier.Index

set_option autoImplicit false

/-!
# Guards

Legal guards and what they decide: a guard reads controls that exist, are available where it is
evaluated, and range over the labels it names. The routes of a choice are compared over the
assignment space of its guards: a branch no assignment takes, or an assignment no branch takes, is
reported.
-/

namespace Zeroshot

open Reporting

namespace Analyzer

/-- `selector_domain`. -/
def selectorDomain (analyzer : Analyzer) (selector : ControlSelector) : Option (List EnumLabel) :=
  match OrdMap.get? analyzer.nodes selector.name with
  | none => none
  | some info =>
    match selector.source with
    | .signal =>
      match info.node with
      | .verifier verifier =>
        (selector.field.bind (OrdMap.get? verifier.signals)).map NonEmptyEnumSet.values
      | _ => none
    | .error =>
      if selector.field.isSome || !info.node.isExecutable then none else some errorLabels
    | .group => info.node.groupDomain selector.field

/-- `map_control_scope`. -/
def mapControlScope (analyzer : Analyzer) (root : GraphNode) (selector : ControlSelector) :
    Option MapAggregate :=
  match OrdMap.get? analyzer.nodes selector.name, root.mapOwner selector.name with
  | some _, some owner =>
    match (OrdMap.get? analyzer.nodes owner).map NodeInfo.node with
    | some (.map _ _ _ maxItems) => some ⟨owner, maxItems.get⟩
    | _ => none
  | _, _ => none

/-! ## Assignments for guards -/

/-- `explicit_map_aggregates`. -/
def explicitMapAggregates (analyzer : Analyzer) (root : GraphNode) (guards : List Guard) :
    OrdMap SelectorKey MapAggregate :=
  (guards.flatMap (Guard.selectorUses false)).foldl (fun aggregates use =>
    if use.2 then
      match analyzer.mapControlScope root use.1 with
      | some aggregate => OrdMap.insert use.1.key aggregate aggregates
      | none => aggregates
    else aggregates) []

/-- `is_parallel_join_selector`. -/
def isParallelJoinSelector (selector : ControlSelector) (field : String) : Bool :=
  selector.source == .group && selector.field.any fun name => name.asStr == field

/-- What `assignment_inputs` has found so far. -/
structure AssignmentInputs where
  expanded : List Guard
  aggregates : OrdMap SelectorKey MapAggregate
  joins : OrdSet NodeName
  executions : OrdSet NodeName
  discovered : Bool

/-- The dependencies of a correlation that are summed over the same map. -/
def aggregateDependencies (analyzer : Analyzer) (root : GraphNode) (aggregate : MapAggregate)
    (guards : List Guard) (aggregates : OrdMap SelectorKey MapAggregate) :
    OrdMap SelectorKey MapAggregate :=
  (guards.flatMap Guard.selectors).foldl (fun aggregates dependency =>
    if (analyzer.mapControlScope root dependency).any fun scope => scope.owner == aggregate.owner
    then OrdMap.insert dependency.key aggregate aggregates
    else aggregates) aggregates

/-- Expand the join correlation of one selector. -/
def expandJoin (analyzer : Analyzer) (root : GraphNode) (inputs : AssignmentInputs)
    (selector : ControlSelector) : AssignmentInputs :=
  match OrdMap.get? analyzer.parallelJoinCorrelations selector.name with
  | none => inputs
  | some correlation =>
    if !isParallelJoinSelector selector correlation.field ||
        OrdSet.contains inputs.joins selector.name then inputs
    else
      let guards := correlation.guards
      let aggregates :=
        match OrdMap.get? inputs.aggregates selector.key with
        | some aggregate => analyzer.aggregateDependencies root aggregate guards inputs.aggregates
        | none => inputs.aggregates
      let expanded := inputs.expanded ++ guards
      { inputs with
        expanded
        aggregates := OrdMap.extend aggregates (analyzer.explicitMapAggregates root expanded)
        joins := OrdSet.insert selector.name inputs.joins
        discovered := true }

/-- Expand the execution correlation of one aggregated control. -/
def expandExecution (analyzer : Analyzer) (root : GraphNode) (inputs : AssignmentInputs)
    (control : SelectorKey × MapAggregate) : AssignmentInputs :=
  match OrdMap.get? analyzer.mapExecutionCorrelations control.1.name with
  | none => inputs
  | some correlation =>
    if correlation.owner != control.2.owner ||
        OrdSet.contains inputs.executions control.1.name then inputs
    else
      let guards := correlation.presence.guards
      { inputs with
        expanded := inputs.expanded ++ guards
        aggregates := analyzer.aggregateDependencies root control.2 guards inputs.aggregates
        executions := OrdSet.insert control.1.name inputs.executions
        discovered := true }

/-- One round of `assignment_inputs`. -/
def expandOnce (analyzer : Analyzer) (root : GraphNode) (inputs : AssignmentInputs) :
    AssignmentInputs :=
  let joined := (inputs.expanded.flatMap Guard.selectors).foldl (analyzer.expandJoin root)
    { inputs with discovered := false }
  joined.aggregates.foldl (analyzer.expandExecution root) joined

/-- The rounds of `assignment_inputs`; each but the last expands a new correlation. -/
def expandUntilStable (analyzer : Analyzer) (root : GraphNode) :
    Nat → AssignmentInputs → AssignmentInputs
  | 0, inputs => inputs
  | fuel + 1, inputs =>
    let next := analyzer.expandOnce root inputs
    if next.discovered then expandUntilStable analyzer root fuel next else next

/-- `assignment_inputs`. -/
def assignmentInputs (analyzer : Analyzer) (root : GraphNode) (guards : List Guard) :
    AssignmentInputs :=
  analyzer.expandUntilStable root
    (analyzer.parallelJoinCorrelations.length + analyzer.mapExecutionCorrelations.length + 1)
    ⟨guards, analyzer.explicitMapAggregates root guards, [], [], false⟩

/-- The legal assignments of `assignments_for_guards`; `none` when there are too many. -/
def legalAssignments (analyzer : Analyzer) (root : GraphNode) (guards : List Guard) :
    Option (List Assignment) :=
  let inputs := analyzer.assignmentInputs root guards
  match buildDimensions (inputs.expanded.flatMap Guard.selectors)
      ⟨analyzer.nodes, inputs.aggregates, analyzer.parallelJoinCorrelations,
        analyzer.mapExecutionCorrelations⟩ with
  | none => none
  | some dimensions =>
    if compatibleAssignmentCountIsBounded dimensions maxGuardAssignments then
      some ((enumerateAssignments dimensions).filter fun assignment =>
        inputs.joins.all fun name =>
          (OrdMap.get? analyzer.parallelJoinCorrelations name).all
            (assignmentMatchesJoin assignment name))
    else none

end Analyzer

/-- `assignment_ceiling`. -/
def assignmentCeiling (path : DiagnosticPath) : Analysis Unit :=
  emitDiagnostic .ceilingExceeded
    ("control assignment space exceeds " ++ toString maxGuardAssignments) path []

/-- `assignments_for_guards`. -/
def assignmentsForGuards (root : GraphNode) (guards : List Guard) (path : DiagnosticPath) :
    Analysis (Option (List Assignment)) := do
  let analyzer ← read
  match analyzer.legalAssignments root guards with
  | some assignments => pure (some assignments)
  | none =>
    assignmentCeiling path
    pure none

/-- `assignments_for_completion_predicates`. -/
def assignmentsForCompletionPredicates (root : GraphNode) (predicates : List CompletionPredicate)
    (path : DiagnosticPath) : Analysis (Option (List Assignment)) :=
  assignmentsForGuards root (predicates.flatMap CompletionPredicate.guards) path

/-- `completion_is_satisfiable`. -/
def completionIsSatisfiable (root : GraphNode) (predicate : CompletionPredicate)
    (path : DiagnosticPath) : Analysis (Option Bool) := do
  let assignments ← assignmentsForCompletionPredicates root [predicate] path
  pure (assignments.map fun assignments =>
    assignments.any fun assignment => predicate.evaluate assignment)

/-- `restrict_completion`. -/
def restrictCompletion (root : GraphNode) (effects : Effects) (condition : CompletionPredicate)
    (path : DiagnosticPath) : Analysis Effects := do
  let completion := CompletionPredicate.allOf [condition, effects.completion]
  if effects.fallsThrough then
    let satisfiable ← completionIsSatisfiable root completion path
    pure { effects with completion, fallsThrough := satisfiable.getD true }
  else pure { effects with completion }

/-- `guard_has_satisfying_assignment`. -/
def guardHasSatisfyingAssignment (root : GraphNode) (guard : Guard) (path : DiagnosticPath) :
    Analysis Bool := do
  let assignments ← assignmentsForGuards root [guard] path
  pure (assignments.any fun assignments =>
    assignments.any fun assignment => evaluateGuard assignment guard)

/-! ## Labels -/

/-- `validate_selector_labels`. -/
def validateSelectorLabels (selector : ControlSelector) (labels : NonEmptyEnumSet)
    (path : DiagnosticPath) (code : GraphDiagnosticCode) (message : String) : Analysis Bool := do
  let analyzer ← read
  let outside := (analyzer.selectorDomain selector).any fun domain =>
    !labels.values.all fun label => domain.contains label
  emitIf outside code message (withField path "labels") [selector.name]
  pure !outside

/-- `validate_k_of_n_intersections`. -/
def validateKOfNIntersections (labels : NonEmptyEnumSet) (path : DiagnosticPath)
    (code : GraphDiagnosticCode) : List ControlSelector → Analysis Bool
  | [] => pure true
  | selector :: selectors => do
    let analyzer ← read
    let disjoint := (analyzer.selectorDomain selector).any fun domain =>
      !labels.values.any fun label => domain.contains label
    emitIf disjoint code "k_of_n labels do not intersect a selector domain"
      (withField path "labels") [selector.name]
    let rest ← validateKOfNIntersections labels path code selectors
    pure (!disjoint && rest)

/-- `validate_k_of_n_labels`. -/
def validateKOfNLabels (count : PositiveInteger) (selectors : List ControlSelector)
    (labels : NonEmptyEnumSet) (path : DiagnosticPath) (code : GraphDiagnosticCode) :
    Analysis Bool := do
  let analyzer ← read
  let tooMany := decide (selectors.length < count.get)
  emitIf tooMany code "k_of_n count exceeds selector count" (withField path "count") []
  let union := (selectors.filterMap analyzer.selectorDomain).flatten
  let outside := !labels.values.all fun label => union.contains label
  emitIf outside code "k_of_n labels exceed the selectors' combined closed domains"
    (withField path "labels") (selectors.map ControlSelector.name)
  let intersections ← validateKOfNIntersections labels path code selectors
  pure (!tooMany && !outside && intersections)

/-- `validate_k_of_map_labels`. -/
def validateKOfMapLabels (root : GraphNode) (count : PositiveInteger) (selector : ControlSelector)
    (labels : NonEmptyEnumSet) (path : DiagnosticPath) (code : GraphDiagnosticCode) :
    Analysis Bool := do
  let analyzer ← read
  let valid ← match analyzer.mapControlScope root selector with
    | some aggregate => do
      let tooMany := decide (aggregate.maximum < count.get)
      emitIf tooMany code "k_of_map count exceeds the selected map bound" (withField path "count")
        [selector.name]
      pure !tooMany
    | none => do
      emitDiagnostic code "k_of_map selector has no bounded enclosing map scope"
        (withField path "value") [selector.name]
      pure false
  let labelsValid ← validateSelectorLabels selector labels path code
    "k_of_map labels exceed the selector's closed domain"
  pure (valid && labelsValid)

mutual

/-- `validate_guard_labels`. -/
def validateGuardLabels (root : GraphNode) (code : GraphDiagnosticCode) (guard : Guard)
    (path : DiagnosticPath) : Analysis Bool :=
  match guard with
  | .inLabels value labels =>
    validateSelectorLabels value labels path code
      "guard labels exceed the selector's closed domain"
  | .all guards => validateNestedGuardLabels root code guards path 0
  | .any guards => validateNestedGuardLabels root code guards path 0
  | .not inner => validateGuardLabels root code inner (withField path "guard")
  | .kOfN count values labels => validateKOfNLabels count values labels path code
  | .kOfMap count value labels => validateKOfMapLabels root count value labels path code

/-- `validate_nested_guard_labels`. -/
def validateNestedGuardLabels (root : GraphNode) (code : GraphDiagnosticCode) (guards : List Guard)
    (path : DiagnosticPath) (index : Nat) : Analysis Bool :=
  match guards with
  | [] => pure true
  | guard :: guards => do
    let first ← validateGuardLabels root code guard (indexedFieldPath path "guards" index)
    let rest ← validateNestedGuardLabels root code guards path (index + 1)
    pure (first && rest)

end

/-! ## Availability -/

/-- One correlation of `choice_error_is_available`: whether the node has run whenever the guard
reads its error. -/
def choiceErrorIsCovered (root : GraphNode) (available : OrdSet NodeName)
    (condition : CompletionPredicate) (path : DiagnosticPath) (correlation : ExecutionCorrelation) :
    Analysis Bool := do
  let analyzer ← read
  match OrdSet.contains available correlation.owner,
      OrdMap.get? analyzer.nodeCompletion correlation.owner with
  | true, some completion =>
    let required := CompletionPredicate.allOf [completion, condition]
    let assignments ←
      assignmentsForCompletionPredicates root [required, correlation.presence] path
    pure (assignments.any fun assignments => assignments.all fun assignment =>
      !required.evaluate assignment || correlation.presence.evaluate assignment)
  | _, _ => pure false

/-- The loop of `choice_error_is_available`. -/
def anyCorrelationCovers (root : GraphNode) (available : OrdSet NodeName)
    (condition : CompletionPredicate) (path : DiagnosticPath) :
    List ExecutionCorrelation → Analysis Bool
  | [] => pure false
  | correlation :: correlations => do
    if ← choiceErrorIsCovered root available condition path correlation then pure true
    else anyCorrelationCovers root available condition path correlations

/-- `choice_error_is_available`. -/
def choiceErrorIsAvailable (root : GraphNode) (selector : ControlSelector)
    (available : OrdSet NodeName) (condition : CompletionPredicate) (path : DiagnosticPath) :
    Analysis Bool := do
  if selector.source != .error then pure false
  else
    let analyzer ← read
    anyCorrelationCovers root available condition path
      ((OrdMap.get? analyzer.choiceExecutionCorrelations selector.name).getD [])

/-- The control a guard reads is available. -/
def controlIsAvailable (root : GraphNode) (available : OrdSet NodeName) (path : DiagnosticPath)
    (use : SelectorUse) : Analysis Bool :=
  if OrdSet.contains available use.1.name ||
      (use.2.1 && (root.mapOwner use.1.name).any (OrdSet.contains available)) then pure true
  else choiceErrorIsAvailable root use.1 available use.2.2 path

/-- The selector loop of `validate_guard`. -/
def validateSelectorUses (root : GraphNode) (available : OrdSet NodeName) (path : DiagnosticPath)
    (code : GraphDiagnosticCode) : List SelectorUse → Analysis Bool
  | [] => pure true
  | use :: uses => do
    let isAvailable ← controlIsAvailable root available path use
    emitIf (!isAvailable) .undefinedRead
      ("control selector " ++ use.1.name.asStr ++ " does not dominate this guard") path
      [use.1.name]
    let analyzer ← read
    let legal := (analyzer.selectorDomain use.1).isSome
    emitIf (!legal) code ("illegal control selector for node " ++ use.1.name.asStr) path
      [use.1.name]
    let rest ← validateSelectorUses root available path code uses
    pure (isAvailable && legal && rest)

/-- `validate_guard`. -/
def validateGuard (root : GraphNode) (guard : Guard) (available : OrdSet NodeName)
    (path : DiagnosticPath) (code : GraphDiagnosticCode) : Analysis Bool := do
  let selectors ← validateSelectorUses root available path code (guardedSelectorUses guard)
  let labels ← validateGuardLabels root code guard path
  pure (selectors && labels)

/-! ## Choices -/

/-- `validate_choice_guards`. -/
def validateChoiceGuards (root : GraphNode) (name : NodeName) (incoming : Flow)
    (path : DiagnosticPath) : Nat → List (Guard × GraphNode) → Analysis Bool
  | _, [] => pure true
  | index, branch :: branches => do
    let valid ← validateGuard root branch.1 incoming.available
      (guardPath path "branches" index "when") .choiceExhaustiveness
    update fun analyzer => branch.1.selectors.foldl (fun analyzer selector =>
      analyzer.addDependencies name [selector.name]) analyzer
    let rest ← validateChoiceGuards root name incoming path (index + 1) branches
    pure (valid && rest)

/-- The loop of `choice_branch_outcomes`, over the assignments no earlier branch takes. -/
def choiceBranchOutcomes (name : NodeName) (path : DiagnosticPath) :
    Nat → List (Guard × GraphNode) → List Assignment →
      Analysis (List (OutcomeRefinement × Bool) × List Assignment)
  | _, [], uncovered => pure ([], uncovered)
  | index, branch :: branches, uncovered => do
    let residual := uncovered.filter fun assignment => evaluateGuard assignment branch.1
    emitIf residual.isEmpty .choiceExhaustiveness
      "choice branch is unreachable after excluding earlier branches"
      (guardPath path "branches" index "when") [name]
    let (outcomes, uncovered) ← choiceBranchOutcomes name path (index + 1) branches
      (uncovered.filter fun assignment => !evaluateGuard assignment branch.1)
    pure ((outcomeRefinement residual, !residual.isEmpty) :: outcomes, uncovered)

/-- `record_choice_exhaustiveness`: whether the choice is exhaustive, and its fallback reachable. -/
def recordChoiceExhaustiveness (name : NodeName) (otherwise : Option GraphNode)
    (uncovered : List Assignment) (path : DiagnosticPath) : Analysis (Bool × Bool) := do
  let exhaustive := otherwise.isSome || uncovered.isEmpty
  emitIf (otherwise.isNone && !exhaustive) .choiceExhaustiveness
    "choice branches do not cover every legal control assignment" (withField path "branches") [name]
  let reachable := otherwise.isSome && !uncovered.isEmpty
  match otherwise with
  | none => pure ()
  | some node =>
    emitIf (!reachable) .choiceExhaustiveness
      "choice otherwise is unreachable because earlier branches cover every legal control assignment"
      (namedChildPath path "otherwise" node.name) [name]
  pure (exhaustive, reachable)

/-- The conditions of the choices whose writes are still pending. -/
def pendingConditions (analyzer : Analyzer) (branches : List (Guard × GraphNode))
    (otherwise : Option GraphNode) (incoming : Flow) : List (NodeName × CompletionPredicate) :=
  let onlyFailures := (branches.all fun branch => branch.2 matches .fail _) &&
    otherwise.all fun node => node matches .fail _
  if onlyFailures then []
  else
    ((OrdMap.keys incoming.outcomeWrites).filter (OrdSet.contains incoming.available)).filterMap
      fun name => (OrdMap.get? analyzer.choiceWriteConditions name).map fun condition =>
        (name, condition)

/-- `validate_choice`. -/
def validateChoice (root : GraphNode) (name : NodeName) (branches : List (Guard × GraphNode))
    (otherwise : Option GraphNode) (incoming : Flow) (path : DiagnosticPath) :
    Analysis ChoiceControl := do
  if !(← validateChoiceGuards root name incoming path 0 branches) then
    pure (ChoiceControl.unknown branches otherwise)
  else
    let analyzer ← read
    let conditions := pendingConditions analyzer branches otherwise incoming
    let guards := branches.map Prod.fst ++
      conditions.flatMap fun condition => condition.2.guards
    match ← assignmentsForGuards root guards (withField path "branches") with
    | none => pure (ChoiceControl.unknown branches otherwise)
    | some assignments =>
      let (outcomes, uncovered) ← choiceBranchOutcomes name path 0 branches assignments
      let (exhaustive, reachable) ← recordChoiceExhaustiveness name otherwise uncovered path
      pure (refineCommonChoiceWrites
        ⟨outcomes.map Prod.fst, outcomes.map Prod.snd, choiceBranchCompletionPredicates branches,
          outcomeRefinement uncovered, reachable, choiceOtherwiseCompletionPredicate branches,
          exhaustive⟩ branches assignments conditions)

end Zeroshot
