import Zeroshot.Verifier.Control

set_option autoImplicit false

/-!
# The assignment space

Which assignments of the controls a set of guards reads are legal. Controls of one executable vary
together, as one outcome of it; group controls vary alone; controls a map aggregates are summed
over multisets of item outcomes. Correlations between a join and its branches, and between a map
item and the nodes it runs, cut the space down.
-/

namespace Zeroshot

/-- `FULL_V1_MAX_GUARD_ASSIGNMENTS`. -/
def maxGuardAssignments : Nat := 65536

/-- The values of an unsigned 64-bit integer lie below. -/
def u64Limit : Nat := 2 ^ 64

/-- `NodeInfo`: an indexed node, where it stands and when it was indexed. -/
structure NodeInfo where
  node : GraphNode
  path : DiagnosticPath
  ordinal : Nat

/-- `MapAggregate`: the map whose items a control is summed over. -/
structure MapAggregate where
  owner : NodeName
  maximum : Nat

/-! ## Outcomes of one execution -/

/-- `group_control_dimensions`. -/
def groupControlDimensions (node : GraphNode) (keys : List SelectorKey) : List (List Assignment) :=
  (keys.filter fun key => key.source == .group).map fun key =>
    ((node.groupDomain key.field).getD []).map fun label =>
      [(key, assignedControl (some label) 1)]

/-- `successful_outcome_count`, from `count` on. -/
def successfulOutcomeCount (node : GraphNode) : List SelectorKey → Nat → Option Nat
  | [], count => some count
  | key :: keys, count =>
    let product := count * (selectorKeyDomain key node).length
    if product > maxGuardAssignments then none else successfulOutcomeCount node keys product

/-- `runtime_errors_for_node`. -/
def runtimeErrorsForNode (node : GraphNode) : List EnumLabel :=
  if node.isExecutable then errorLabels else []

/-- `cartesian_emitted_outcomes`. -/
def cartesianEmittedOutcomes (parts : List Assignment) (key : SelectorKey)
    (labels : List EnumLabel) : List Assignment :=
  parts.flatMap fun part =>
    labels.map fun label => OrdMap.insert key (assignedControl (some label) 1) part

/-- `insert_empty_controls`. -/
def insertEmptyControls (assignment : Assignment) (keys : List SelectorKey) : Assignment :=
  keys.foldl (fun assignment key => OrdMap.insert key (assignedControl none 0) assignment)
    assignment

/-- `insert_execution_controls`. -/
def insertExecutionControls (assignment : Assignment) (keys : List SelectorKey) : Assignment :=
  match enumLabel "executed" with
  | none => assignment
  | some executed =>
    keys.foldl (fun assignment key =>
      OrdMap.insert key (assignedControl (some executed) 1) assignment) assignment

/-- `OutcomeKeys`. -/
structure OutcomeKeys where
  emitted : List SelectorKey
  errors : List SelectorKey
  executions : List SelectorKey

def OutcomeKeys.of (keys : List SelectorKey) : OutcomeKeys :=
  ⟨keys.filter fun key => key.source == .signal || key.source == .group,
    keys.filter fun key => key.source == .error,
    keys.filter fun key => key.source == .execution⟩

/-- `successful_outcomes`. -/
def successfulOutcomes (node : GraphNode) (keys : OutcomeKeys) : List Assignment :=
  (keys.emitted.foldl (fun outcomes key =>
    cartesianEmittedOutcomes outcomes key (selectorKeyDomain key node)) [[]]).map fun outcome =>
      insertExecutionControls (insertEmptyControls outcome keys.errors) keys.executions

/-- `Vec::dedup`. -/
def dedupAdjacent {α : Type} [DecidableEq α] : List α → List α
  | [] => []
  | [a] => [a]
  | a :: b :: rest => if a = b then dedupAdjacent (b :: rest) else a :: dedupAdjacent (b :: rest)

/-- The outcome of an execution that ends with an error. -/
def errorOutcome (keys : OutcomeKeys) (error : EnumLabel) : Assignment :=
  keys.errors.foldl (fun assignment key =>
      OrdMap.insert key (assignedControl (some error) 1) assignment)
    (insertExecutionControls (insertEmptyControls [] keys.emitted) keys.executions)

/-- `with_runtime_errors`. -/
def withRuntimeErrors (outcomes : List Assignment) (errors : List EnumLabel)
    (keys : OutcomeKeys) : List Assignment :=
  dedupAdjacent (outcomes ++ errors.map (errorOutcome keys))

/-- `per_execution_outcomes`. -/
def perExecutionOutcomes (node : GraphNode) (keys : List SelectorKey) :
    Option (List Assignment) :=
  let keys := OutcomeKeys.of keys
  let errors := runtimeErrorsForNode node
  match successfulOutcomeCount node keys.emitted 1 with
  | none => none
  | some count =>
    if count + errors.length > maxGuardAssignments then none
    else some (withRuntimeErrors (successfulOutcomes node keys) errors keys)

/-- `single_outcome_dimension`. -/
def singleOutcomeDimension (node : GraphNode) (keys : List SelectorKey) :
    Option (List Assignment) :=
  (perExecutionOutcomes node keys).filter fun choices => choices.length ≤ maxGuardAssignments

/-! ## Multisets of item outcomes -/

/-- The loop of `bounded_distribution_count` over the divisors from `divisor` on. -/
def distributionCount (maximum : Nat) : Nat → Nat → Nat → Option Nat
  | 0, _, result => some result
  | remaining + 1, divisor, result =>
    if maximum + divisor ≥ u64Limit || result * (maximum + divisor) ≥ u64Limit then none
    else
      let result := result * (maximum + divisor) / divisor
      if result > maxGuardAssignments then some result
      else distributionCount maximum remaining (divisor + 1) result

/-- `bounded_distribution_count`. -/
def boundedDistributionCount (maximum labels : Nat) : Option Nat :=
  distributionCount maximum labels 1 1

/-- The successor of a nondecreasing sequence: raise the last index that can be raised, and the
ones after it to the same. -/
def nextIndexes (outcomes : Nat) : List Nat → Option (List Nat)
  | [] => none
  | index :: indexes =>
    match nextIndexes outcomes indexes with
    | some next => some (index :: next)
    | none =>
      if index + 1 < outcomes then some (List.replicate (indexes.length + 1) (index + 1)) else none

/-- The inner loop of `for_each_outcome_multiset`, for the sequences of one length. -/
def visitIndexes {σ : Type} (outcomes : Nat) (visit : σ → List Nat → σ × Bool) :
    Nat → List Nat → σ → σ × Bool
  | 0, _, state => (state, true)
  | fuel + 1, indexes, state =>
    match visit state indexes with
    | (state, false) => (state, false)
    | (state, true) =>
      match nextIndexes outcomes indexes with
      | none => (state, true)
      | some next => visitIndexes outcomes visit fuel next state

/-- The outer loop of `for_each_outcome_multiset`. There are at most `outcomes ^ total` sequences
of length `total`. -/
def visitTotals {σ : Type} (outcomes : Nat) (visit : σ → List Nat → σ × Bool) :
    List Nat → σ → σ × Bool
  | [], state => (state, true)
  | total :: totals, state =>
    match visitIndexes outcomes visit (outcomes ^ total) (List.replicate total 0) state with
    | (state, false) => (state, false)
    | (state, true) => visitTotals outcomes visit totals state

/-- `for_each_outcome_multiset`. -/
def forEachOutcomeMultiset {σ : Type} (outcomes maximum : Nat) (visit : σ → List Nat → σ × Bool)
    (state : σ) : σ × Bool :=
  match visit state [] with
  | (state, false) => (state, false)
  | (state, true) =>
    if outcomes = 0 then (state, true)
    else visitTotals outcomes visit (List.range' 1 maximum) state

/-- Add the counts of one control. -/
def addCounts (target : AssignedControl) : AssignedControl → Option AssignedControl
  | [] => some target
  | (label, count) :: counts =>
    let sum := (OrdMap.get? target label).getD 0 + count
    if sum ≥ u64Limit then none else addCounts (OrdMap.insert label sum target) counts

/-- Add the counts of one outcome. -/
def addOutcome (combined : Assignment) : Assignment → Option Assignment
  | [] => some combined
  | (key, value) :: outcome =>
    match addCounts ((OrdMap.get? combined key).getD []) value with
    | none => none
    | some control => addOutcome (OrdMap.insert key control combined) outcome

/-- `empty_outcome`. -/
def emptyOutcome (keys : List SelectorKey) : Assignment :=
  keys.foldl (fun assignment key => OrdMap.insert key (assignedControl none 0) assignment) []

/-- `combine_outcome_occurrences`. -/
def combineOutcomeOccurrences (keys : List SelectorKey) (outcomes : List Assignment)
    (occurrences : List Nat) : Option Assignment :=
  occurrences.foldlM (fun combined index =>
    (outcomes[index]?).bind (addOutcome combined)) (emptyOutcome keys)

/-- `aggregate_assignments_from_outcomes`. -/
def aggregateAssignmentsFromOutcomes (keys : List SelectorKey) (outcomes : List Assignment)
    (maximum : Nat) : Option (List Assignment) :=
  match boundedDistributionCount maximum outcomes.length with
  | none => none
  | some count =>
    if count > maxGuardAssignments then none
    else
      let visit : List Assignment → List Nat → List Assignment × Bool := fun assignments indexes =>
        if assignments.length ≥ count then (assignments, false)
        else
          match combineOutcomeOccurrences keys outcomes indexes with
          | none => (assignments, false)
          | some assignment => (assignments ++ [assignment], true)
      let (assignments, completed) := forEachOutcomeMultiset outcomes.length maximum visit []
      if completed && assignments.length == count then some assignments else none

/-! ## Correlations -/

/-- `parallel_join_control`. -/
def parallelJoinControl (assignment : Assignment) (name : NodeName)
    (correlation : ParallelJoinCorrelation) : Option AssignedControl :=
  (assignment.find? fun entry =>
    entry.1.name == name && entry.1.source == .group &&
      entry.1.field.any fun field => field.asStr == correlation.field).map Prod.snd

/-- `assignment_matches_parallel_join_correlation`. -/
def assignmentMatchesJoin (assignment : Assignment) (name : NodeName)
    (correlation : ParallelJoinCorrelation) : Bool :=
  match parallelJoinControl assignment name correlation with
  | none => true
  | some control =>
    if !control.occurs then true
    else
      match correlation with
      | .joined completion =>
        let completed := completion.evaluate assignment
        (controlReports control "reached" && completed) ||
          (controlReports control "quorum_unreachable" && !completed)
      | .first satisfaction allCompletions =>
        let satisfied := satisfaction.evaluate assignment
        (controlReports control "satisfied" && satisfied) ||
          (controlReports control "no_satisfier" && !satisfied &&
            allCompletions.evaluate assignment)

/-- `correlation_control_is_present`. -/
def correlationControlIsPresent (name : NodeName) (correlation : ParallelJoinCorrelation)
    (keys : OrdSet SelectorKey) : Bool :=
  keys.any fun key => key.name == name && key.source == .group &&
    key.field.any fun field => field.asStr == correlation.field

/-- `correlation_is_available_to_scope`. -/
def correlationIsAvailableToScope (name : NodeName) (correlation : ParallelJoinCorrelation)
    (controlKeys availableKeys : OrdSet SelectorKey) : Bool :=
  correlationControlIsPresent name correlation controlKeys &&
    (correlation.guards.flatMap Guard.selectors).all fun selector =>
      OrdSet.contains availableKeys selector.key

/-- `execution_key`. -/
def executionKey (name : NodeName) : SelectorKey := ⟨name, .execution, none⟩

/-- `assignment_matches_map_execution_correlation`. -/
def assignmentMatchesExecution (assignment : Assignment) (name : NodeName)
    (correlation : ExecutionCorrelation) : Bool :=
  ((OrdMap.get? assignment (executionKey name)).any AssignedControl.occurs) ==
    correlation.presence.evaluate assignment

/-! ## Products of dimensions -/

/-- `assignments_are_compatible`. -/
def assignmentsAreCompatible (left right : Assignment) : Bool :=
  right.all fun entry =>
    match OrdMap.get? left entry.1 with
    | none => true
    | some existing => decide (existing = entry.2)

/-- One more dimension: every compatible pair. -/
def extendAssignments (assignments dimension : List Assignment) : List Assignment :=
  assignments.flatMap fun part =>
    (dimension.filter (assignmentsAreCompatible part)).map (OrdMap.extend part)

/-- `enumerate_assignments`. -/
def enumerateAssignments (dimensions : List (List Assignment)) : List Assignment :=
  dimensions.foldl extendAssignments [[]]

/-- The loop of `compatible_assignment_count_is_bounded`. -/
def countIsBoundedFrom (maximum : Nat) : List Assignment → List (List Assignment) → Bool
  | _, [] => true
  | assignments, dimension :: dimensions =>
    let next := extendAssignments assignments dimension
    next.length ≤ maximum && countIsBoundedFrom maximum next dimensions

/-- `compatible_assignment_count_is_bounded`. -/
def compatibleAssignmentCountIsBounded (dimensions : List (List Assignment)) (maximum : Nat) :
    Bool :=
  countIsBoundedFrom maximum [[]] dimensions

/-- The loop of `dimension_product_is_bounded`. -/
def productIsBoundedFrom : Nat → List (List Assignment) → Bool
  | _, [] => true
  | product, dimension :: dimensions =>
    product * dimension.length ≤ maxGuardAssignments &&
      productIsBoundedFrom (product * dimension.length) dimensions

/-- `dimension_product_is_bounded`. -/
def dimensionProductIsBounded (dimensions : List (List Assignment)) : Bool :=
  productIsBoundedFrom 1 dimensions

/-! ## Dimensions -/

/-- `DimensionInputs`. -/
structure DimensionInputs where
  nodes : OrdMap NodeName NodeInfo
  mapAggregates : OrdMap SelectorKey MapAggregate
  joinCorrelations : OrdMap NodeName ParallelJoinCorrelation
  executionCorrelations : OrdMap NodeName ExecutionCorrelation

/-- The keys of every node. -/
def keysByNode (keys : List SelectorKey) : OrdMap NodeName (OrdSet SelectorKey) :=
  keys.foldl (fun byNode key => OrdMap.alter key.name [] (OrdSet.insert key) byNode) []

/-- `scalar_dimensions_for_node`. -/
def scalarDimensionsForNode (node : GraphNode) (keys : OrdSet SelectorKey)
    (mapAggregates : OrdMap SelectorKey MapAggregate) : Option (List (List Assignment)) :=
  let scalar := keys.filter fun key => !OrdMap.contains mapAggregates key
  let outcomes := scalar.filter fun key => key.source != .group
  if outcomes.isEmpty then some (groupControlDimensions node scalar)
  else (singleOutcomeDimension node outcomes).map fun dimension =>
    groupControlDimensions node scalar ++ [dimension]

/-- `dimensions_for_keys`. -/
def dimensionsForKeys (nodes : OrdMap NodeName NodeInfo) (keys : OrdSet SelectorKey) :
    Option (List (List Assignment)) :=
  (keysByNode keys).foldlM (fun dimensions entry =>
    (OrdMap.get? nodes entry.1).bind fun info =>
      (scalarDimensionsForNode info.node entry.2 []).map (dimensions ++ ·)) []

/-- The keys the nodes of a map scope contribute. -/
abbrev ScopeNodes := OrdMap NodeName (List SelectorKey)

def ScopeNodes.keySet (scopeNodes : ScopeNodes) : OrdSet SelectorKey :=
  OrdSet.ofList (OrdMap.values scopeNodes).flatten

/-- One round of `aggregate_shared_keys`: the keys found so far, and whether there are new ones. -/
def shareKeys (inputs : DimensionInputs) :
    OrdMap NodeName ParallelJoinCorrelation → OrdSet SelectorKey × OrdSet SelectorKey × Bool →
      OrdSet SelectorKey × OrdSet SelectorKey × Bool
  | [], found => found
  | (name, correlation) :: correlations, (shared, available, discovered) =>
    if correlationControlIsPresent name correlation available then
      let dependencies := ((correlation.guards.flatMap Guard.selectors).map
        ControlSelector.key).filter fun key => !OrdMap.contains inputs.mapAggregates key
      shareKeys inputs correlations (dependencies.foldl (fun found key =>
        (OrdSet.insert key found.1, OrdSet.insert key found.2.1,
          found.2.2 || !OrdSet.contains found.1 key)) (shared, available, discovered))
    else shareKeys inputs correlations (shared, available, discovered)

/-- The rounds of `aggregate_shared_keys`; each but the last finds a new key. -/
def shareKeysUntilStable (inputs : DimensionInputs) :
    Nat → OrdSet SelectorKey → OrdSet SelectorKey → OrdSet SelectorKey
  | 0, shared, _ => shared
  | fuel + 1, shared, available =>
    let (shared, available, discovered) :=
      shareKeys inputs inputs.joinCorrelations (shared, available, false)
    if discovered then shareKeysUntilStable inputs fuel shared available else shared

/-- `aggregate_shared_keys`. -/
def aggregateSharedKeys (inputs : DimensionInputs) (scopeNodes : ScopeNodes) :
    OrdSet SelectorKey :=
  let candidates := (OrdMap.values inputs.joinCorrelations).flatMap fun correlation =>
    correlation.guards.flatMap Guard.selectors
  shareKeysUntilStable inputs (candidates.length + 1) [] scopeNodes.keySet

/-- `aggregate_shared_execution_keys`. -/
def aggregateSharedExecutionKeys (inputs : DimensionInputs) (scopeNodes : ScopeNodes) :
    OrdSet SelectorKey :=
  let correlations := (OrdMap.keys scopeNodes).filterMap (OrdMap.get? inputs.executionCorrelations)
  let keys := correlations.flatMap fun correlation =>
    (correlation.presence.guards.flatMap Guard.selectors).map ControlSelector.key
  OrdSet.ofList (keys.filter fun key => !OrdMap.contains inputs.mapAggregates key)

/-! ### Components of a map scope -/

/-- `merge_assignment_components`. -/
def mergeAssignmentComponents (components : List (OrdSet NodeName)) (correlated : OrdSet NodeName) :
    List (OrdSet NodeName) :=
  let (independent, correlated) := components.foldl (fun parts component =>
    if component.all fun name => !OrdSet.contains parts.2 name then
      (parts.1 ++ [component], parts.2)
    else (parts.1, OrdSet.extend parts.2 component)) ([], correlated)
  independent ++ [correlated]

/-- `scoped_guard_names`. -/
def scopedGuardNames (guards : List Guard) (scopeKeys : OrdSet SelectorKey) : List NodeName :=
  ((guards.flatMap Guard.selectors).filter fun selector =>
    OrdSet.contains scopeKeys selector.key).map ControlSelector.name

/-- `correlate_join_components`. -/
def correlateJoinComponents (inputs : DimensionInputs)
    (scopeKeys availableKeys : OrdSet SelectorKey) (components : List (OrdSet NodeName)) :
    List (OrdSet NodeName) :=
  inputs.joinCorrelations.foldl (fun components entry =>
    if correlationIsAvailableToScope entry.1 entry.2 scopeKeys availableKeys then
      mergeAssignmentComponents components
        (OrdSet.ofList (entry.1 :: scopedGuardNames entry.2.guards scopeKeys))
    else components) components

/-- `correlate_execution_components`. -/
def correlateExecutionComponents (inputs : DimensionInputs) (scopeNodes : ScopeNodes)
    (scopeKeys : OrdSet SelectorKey) (components : List (OrdSet NodeName)) :
    List (OrdSet NodeName) :=
  let alwaysPresent := (OrdMap.keys scopeNodes).filter fun name =>
    (OrdMap.get? inputs.executionCorrelations name).any fun correlation =>
      correlation.presence matches .always
  let components :=
    if alwaysPresent.isEmpty then components
    else mergeAssignmentComponents components alwaysPresent
  inputs.executionCorrelations.foldl (fun components entry =>
    if OrdMap.contains scopeNodes entry.1 then
      mergeAssignmentComponents components
        (OrdSet.ofList (entry.1 :: scopedGuardNames entry.2.presence.guards scopeKeys))
    else components) components

/-- The order of components: by their first node. -/
def firstNotAfter (left right : OrdSet NodeName) : Prop :=
  match left, right with
  | [], _ => True
  | _ :: _, [] => False
  | a :: _, b :: _ => compare a b ≠ .gt

instance : DecidableRel firstNotAfter := fun left right =>
  match left, right with
  | [], _ => inferInstanceAs (Decidable True)
  | _ :: _, [] => inferInstanceAs (Decidable False)
  | a :: _, b :: _ => inferInstanceAs (Decidable (compare a b ≠ .gt))

/-- `aggregate_components`. -/
def aggregateComponents (inputs : DimensionInputs) (scopeNodes : ScopeNodes)
    (scopeKeys availableKeys : OrdSet SelectorKey) : List (OrdSet NodeName) :=
  (correlateExecutionComponents inputs scopeNodes scopeKeys
    (correlateJoinComponents inputs scopeKeys availableKeys
      ((OrdMap.keys scopeNodes).map fun name => [name]))).insertionSort firstNotAfter

/-- `assignment_is_empty`. -/
def assignmentIsEmpty (assignment : Assignment) : Bool :=
  assignment.all fun entry => !AssignedControl.occurs entry.2

/-- Insert into a sorted list without repetition. -/
def insertAssignment (assignment : Assignment) : List Assignment → List Assignment
  | [] => [assignment]
  | other :: assignments =>
    match compareAssignments assignment other with
    | .lt => assignment :: other :: assignments
    | .eq => other :: assignments
    | .gt => other :: insertAssignment assignment assignments

/-- The outcomes one node of a component may have in an item, absence included. -/
def itemDimension (inputs : DimensionInputs) (scopeNodes : ScopeNodes) (name : NodeName) :
    Option (List Assignment) :=
  match OrdMap.get? scopeNodes name, OrdMap.get? inputs.nodes name with
  | some nodeKeys, some info =>
    let keys :=
      if OrdMap.contains inputs.executionCorrelations name then nodeKeys ++ [executionKey name]
      else nodeKeys
    (perExecutionOutcomes info.node keys).map (· ++ [emptyOutcome keys])
  | _, _ => none

/-- Whether an item outcome respects every correlation. -/
def itemOutcomeIsLegal (inputs : DimensionInputs) (component : OrdSet NodeName)
    (keys availableKeys : OrdSet SelectorKey) (shared outcome : Assignment) : Bool :=
  let correlated := OrdMap.extend shared outcome
  !assignmentIsEmpty outcome &&
    (inputs.joinCorrelations.all fun entry =>
      !correlationIsAvailableToScope entry.1 entry.2 keys availableKeys ||
        assignmentMatchesJoin correlated entry.1 entry.2) &&
    component.all fun name =>
      (OrdMap.get? inputs.executionCorrelations name).all
        (assignmentMatchesExecution correlated name)

/-- `aggregate_component_dimension`. -/
def aggregateComponentDimension (inputs : DimensionInputs) (scopeNodes : ScopeNodes)
    (maximum : Nat) (shared : Assignment) (availableKeys : OrdSet SelectorKey)
    (component : OrdSet NodeName) : Option (List Assignment) :=
  let keys := component.flatMap fun name => (OrdMap.get? scopeNodes name).getD []
  match component.mapM (itemDimension inputs scopeNodes) with
  | none => none
  | some dimensions =>
    if !dimensionProductIsBounded dimensions then none
    else
      let outcomes := (enumerateAssignments dimensions).filter
        (itemOutcomeIsLegal inputs component (OrdSet.ofList keys) availableKeys shared)
      let visible := (outcomes.map fun outcome =>
        outcome.filter fun entry => entry.1.source != .execution).filter fun outcome =>
          !assignmentIsEmpty outcome
      aggregateAssignmentsFromOutcomes keys (visible.foldr insertAssignment []) maximum

/-- `component_dimensions`. -/
def componentDimensions (inputs : DimensionInputs) (scopeNodes : ScopeNodes) (maximum : Nat)
    (availableKeys : OrdSet SelectorKey) (components : List (OrdSet NodeName))
    (shared : Assignment) : Option (List (List Assignment)) :=
  components.mapM (aggregateComponentDimension inputs scopeNodes maximum shared availableKeys)

/-- The loop of `combine_shared_dimensions` over the local assignments of one shared one. -/
def pushLocals (shared : Assignment) : List Assignment → List Assignment → Option (List Assignment)
  | combined, [] => some combined
  | combined, assignment :: locals =>
    if combined.length ≥ maxGuardAssignments then none
    else pushLocals shared (combined ++ [OrdMap.extend shared assignment]) locals

/-- `combine_shared_dimensions`. -/
def combineSharedDimensions (inputs : DimensionInputs) (scopeNodes : ScopeNodes) (maximum : Nat)
    (availableKeys : OrdSet SelectorKey) (components : List (OrdSet NodeName))
    (sharedDimensions : List (List Assignment)) : Option (List (List Assignment)) :=
  ((enumerateAssignments sharedDimensions).foldlM (fun combined shared =>
    match componentDimensions inputs scopeNodes maximum availableKeys components shared with
    | none => none
    | some dimensions =>
      if dimensionProductIsBounded dimensions then
        pushLocals shared combined (enumerateAssignments dimensions)
      else none) []).map fun combined => [combined]

/-- `aggregate_scope_dimensions`. -/
def aggregateScopeDimensions (inputs : DimensionInputs) (scopeNodes : ScopeNodes) (maximum : Nat)
    (sharedKeys : OrdSet SelectorKey) : Option (List (List Assignment)) :=
  let scopeKeys := scopeNodes.keySet
  let availableKeys := OrdSet.extend scopeKeys sharedKeys
  let components := aggregateComponents inputs scopeNodes scopeKeys availableKeys
  if sharedKeys.isEmpty then
    componentDimensions inputs scopeNodes maximum scopeKeys components []
  else
    match dimensionsForKeys inputs.nodes sharedKeys with
    | none => none
    | some sharedDimensions =>
      if dimensionProductIsBounded sharedDimensions then
        combineSharedDimensions inputs scopeNodes maximum availableKeys components sharedDimensions
      else none

/-! ### All dimensions -/

/-- The map scopes among the keys, each with its item maximum; `none` when two maxima differ. -/
def aggregateScopes (inputs : DimensionInputs) (keys : List SelectorKey) :
    Option (OrdMap NodeName (Nat × ScopeNodes)) :=
  keys.foldlM (fun scopes key =>
    match OrdMap.get? inputs.mapAggregates key with
    | none => some scopes
    | some aggregate =>
      let scope := (OrdMap.get? scopes aggregate.owner).getD (aggregate.maximum, [])
      if scope.1 = aggregate.maximum then
        some (OrdMap.insert aggregate.owner
          (scope.1, OrdMap.alter key.name [] (· ++ [key]) scope.2) scopes)
      else none) []

/-- `build_dimensions`. -/
def buildDimensions (selectors : List ControlSelector) (inputs : DimensionInputs) :
    Option (List (List Assignment)) :=
  let byNode := keysByNode (selectors.map ControlSelector.key)
  match aggregateScopes inputs (OrdMap.values byNode).flatten with
  | none => none
  | some scopes =>
    let sharedByScope := scopes.map fun entry =>
      OrdSet.extend (aggregateSharedKeys inputs entry.2.2)
        (aggregateSharedExecutionKeys inputs entry.2.2)
    let shared := OrdSet.ofList sharedByScope.flatten
    let scalar := byNode.foldlM (fun dimensions entry =>
      match OrdMap.get? inputs.nodes entry.1 with
      | none => some dimensions
      | some info =>
        (scalarDimensionsForNode info.node
          (entry.2.filter fun key => !OrdSet.contains shared key) inputs.mapAggregates).map
          (dimensions ++ ·)) []
    scalar.bind fun dimensions =>
      (scopes.zip sharedByScope).foldlM (fun dimensions scope =>
        (aggregateScopeDimensions inputs scope.1.2.2 scope.1.2.1 scope.2).map
          (dimensions ++ ·)) dimensions

end Zeroshot
