import Zeroshot.Verifier.Choices

set_option autoImplicit false

/-!
# Parallel groups, maps and the whole tree

A parallel join is analysed over scenarios: every legal assignment says which branches complete,
and a fact is definite when too few completing branches lack it for the join to be reached without
it. A map is assumed to complete whatever its items do.

`validateNode` ties the groups together. It records for every node when it completes and whether
control may fall through it.
-/

namespace Zeroshot

open Reporting

/-! ## Parallel groups -/

/-- `validate_join`. -/
def validateJoin (root : GraphNode) (group : Group) (branches : List GraphNode) (join : Join)
    (incoming : Flow) (path : DiagnosticPath) : Analysis Unit :=
  match join with
  | .first condition => do
    let available := OrdSet.extend incoming.available (branches.flatMap GraphNode.names)
    update fun analyzer => condition.selectors.foldl (fun analyzer selector =>
      analyzer.addDependencies group.name [selector.name]) analyzer
    let _ ← validateGuard root condition available (fieldPath path ["join", "when"])
      .invalidGraphShape
    pure ()
  | .quorum count =>
    emitIf (branches.length < count.get) .invalidGraphShape "parallel quorum exceeds branch count"
      (fieldPath path ["join", "count"]) [group.name]
  | .all | .any => pure ()

/-- Every pair of the types is compatible; reports one diagnostic for each pair that is not. -/
def reportIncompatible (report : Analysis Unit) : List PayloadType → Analysis Unit
  | [] => pure ()
  | type :: types => do
    let _ ← forEach (fun other =>
      if type.compatibleTypes other then pure () else report) types
    reportIncompatible report types

/-- `validate_parallel_promotion_types`. -/
def validateParallelPromotionTypes (group : Group) (branches : List Effects)
    (path : DiagnosticPath) : Nat → List FieldPath → Analysis Unit
  | _, [] => pure ()
  | index, promoted :: rest => do
    reportIncompatible
      (emitDiagnostic .schemaSafety "parallel promotion has incompatible branch value types"
        (indexedFieldPath path "promotedStatePaths" index) [group.name])
      (branches.flatMap fun branch =>
        (OrdMap.get? branch.possibleWriteTypes promoted).getD [])
    validateParallelPromotionTypes group branches path (index + 1) rest

/-- The overlapping pairs of two branches. -/
def writeConflicts (left right : Effects) : List (FieldPath × FieldPath) :=
  ((OrdMap.keys left.possibleWrites).flatMap fun leftPath =>
    (OrdMap.keys right.possibleWrites).map fun rightPath => (leftPath, rightPath)).filter
      fun pair => pathsOverlap pair.1 pair.2

/-- `validate_parallel_write_conflicts`, for a join that waits for all branches. -/
def validateParallelWriteConflicts (path : DiagnosticPath) :
    List (NodeName × Effects) → Analysis Unit
  | [] => pure ()
  | (leftName, left) :: rest => do
    let _ ← forEach (fun (other : NodeName × Effects) =>
      forEach (fun _ =>
        emitDiagnostic .writeConflict "parallel all branches have overlapping writes"
          (withField path "branches") [leftName, other.1]) (writeConflicts left other.2)) rest
    validateParallelWriteConflicts path rest

/-- `validate_parallel_writes`. -/
def validateParallelWrites (group : Group) (names : List NodeName) (join : Join)
    (branches : List Effects) (path : DiagnosticPath) : Analysis Unit := do
  validateParallelPromotionTypes group branches path 0 group.promotedStatePaths
  match join with
  | .all => validateParallelWriteConflicts path (names.zip branches)
  | .any | .quorum _ | .first _ => pure ()

/-- The effects of a join nothing is known about. -/
def continuingEffects (branches : List Effects) (required : Nat) : Effects :=
  { mergeParallelScenarios branches required [] with fallsThrough := true, completion := .always }

/-- The branches that complete under an assignment. -/
def completingBranches (completions : List CompletionPredicate) (assignment : Assignment) :
    OrdSet Nat :=
  (completions.zipIdx.filter fun entry => entry.1.evaluate assignment).map Prod.snd

/-- The distinct scenarios with enough completing branches. -/
def parallelScenarios (completions : List CompletionPredicate) (required : Nat)
    (assignments : List Assignment) : List (OrdSet Nat) :=
  OrdSet.ofList ((assignments.map (completingBranches completions)).filter fun completing =>
    required ≤ completing.length)

/-- `merge_parallel`, for the joins that count completions. -/
def mergeCounted (root : GraphNode) (name : NodeName) (join : Join) (branches : List Effects)
    (path : DiagnosticPath) : Analysis Effects :=
  let required := parallelRequiredCompletions join branches.length
  if required > branches.length then pure (continuingEffects branches required)
  else do
    let completions := branches.map Effects.completion
    let completion := CompletionPredicate.atLeastOf required completions
    update fun analyzer =>
      { analyzer with
        parallelJoinCorrelations := OrdMap.insert name (.joined completion)
          analyzer.parallelJoinCorrelations }
    match ← assignmentsForCompletionPredicates root completions (withField path "join") with
    | none => pure (continuingEffects branches required)
    | some assignments =>
      pure { mergeParallelScenarios branches required
          (parallelScenarios completions required assignments) with completion }

/-- `first_guard_available_on_branch`. -/
def firstGuardAvailableOnBranch (root : GraphNode) (condition : Guard) (branch : Effects)
    (incoming : Flow) : Bool :=
  (condition.selectorUses false).all fun use =>
    OrdSet.contains incoming.available use.1.name ||
      OrdSet.contains branch.definiteNodes use.1.name ||
      use.2 && (root.mapOwner use.1.name).any (OrdSet.contains branch.definiteNodes)

/-- `merge_first_parallel`. -/
def mergeFirstParallel (root : GraphNode) (name : NodeName) (condition : Guard)
    (branches : List Effects) (incoming : Flow) (path : DiagnosticPath) : Analysis Effects := do
  let satisfiers := branches.map fun branch =>
    if firstGuardAvailableOnBranch root condition branch incoming then
      CompletionPredicate.allOf [branch.completion, .guard condition]
    else .never
  let satisfaction := CompletionPredicate.anyOf satisfiers
  let allCompletions := CompletionPredicate.allOf (branches.map Effects.completion)
  update fun analyzer =>
    { analyzer with
      parallelJoinCorrelations := OrdMap.insert name (.first satisfaction allCompletions)
        analyzer.parallelJoinCorrelations }
  let settlement := CompletionPredicate.anyOf [satisfaction, allCompletions]
  match ← assignmentsForCompletionPredicates root [satisfaction, allCompletions]
      (withField path "join") with
  | none => pure (continuingEffects branches 1)
  | some assignments =>
    pure { mergeParallelScenarios branches 1 (parallelScenarios satisfiers 1 assignments) with
      fallsThrough := assignments.any fun assignment => settlement.evaluate assignment
      completion := settlement }

/-- `merge_parallel`. -/
def mergeParallel (root : GraphNode) (name : NodeName) (join : Join) (branches : List Effects)
    (incoming : Flow) (path : DiagnosticPath) : Analysis Effects :=
  match join with
  | .first condition => mergeFirstParallel root name condition branches incoming path
  | .all | .any | .quorum _ => mergeCounted root name join branches path

/-- The promotion rule of a join. -/
def Join.promotionRule : Join → PromotionRule
  | .all => .definite
  | .any | .quorum _ | .first _ => .everyAlternative

/-- `validate_par`. -/
def validatePar (root : GraphNode) (group : Group) (branches : List GraphNode) (join : Join)
    (validators : List Validator) (context : NodeValidationContext) (path : DiagnosticPath) :
    Analysis Effects := do
  validateJoin root group branches join context.incoming path
  let branchEffects ← forEach (fun (validate : Validator) =>
    validate { context with state := group.state }) validators
  validateParallelWrites group (branches.map GraphNode.name) join branchEffects path
  let merged ← mergeParallel root group.name join branchEffects context.incoming path
  let effects ← restrictPromotions group context
    { merged with
      definiteNodes := OrdSet.insert group.name merged.definiteNodes
      conditionalNodes := OrdMap.alter group.name []
        (fun nodes => OrdSet.extend nodes merged.definiteNodes) merged.conditionalNodes }
    join.promotionRule path
  let owned := writesWithoutParallelOwners effects.definiteWrites effects.parallelDefinitionEffects
  pure { effects with
    parallelDefinitionEffects := effects.parallelDefinitionEffects ++
      (parallelDefinitionEffect group.name context.incoming.defined owned).toList
    exitFailed := OrdSet.insert group.name effects.exitFailed }

/-! ## Maps -/

/-- `validate_map_selector`: the type of an item. -/
def validateMapSelector (group : Group) (overItems : DataSelector) (context : NodeValidationContext)
    (path : DiagnosticPath) : Analysis (Option PayloadType) := do
  let selected ← validateDataSelector overItems { context with state := group.state }
    (withField path "over")
  match selected with
  | some (.array items) => pure (some items)
  | some _ =>
    emitDiagnostic .schemaSafety "map selector must resolve to an array" (withField path "over")
      [group.name]
    pure none
  | none => pure none

/-- `map_index_targets`: the targets the body sees, and those of this map alone. -/
def mapIndexTargets (group : Group) (context : NodeValidationContext) (path : DiagnosticPath) :
    Nat → List FieldPath → Definitions × Definitions → Analysis (Definitions × Definitions)
  | _, [], targets => pure targets
  | index, promoted :: rest, (inherited, own) =>
    match (context.indexTarget promoted).or (group.state.pathType promoted) with
    | some (.array items) =>
      mapIndexTargets group context path (index + 1) rest
        (OrdMap.insert promoted items inherited, OrdMap.insert promoted items own)
    | some _ => do
      emitDiagnostic .schemaSafety
        "map promoted state path must be an array for indexed body writes"
        (indexedFieldPath path "promotedStatePaths" index) [group.name]
      mapIndexTargets group context path (index + 1) rest (OrdMap.remove inherited promoted, own)
    | none => mapIndexTargets group context path (index + 1) rest (inherited, own)

/-- Record that a node runs under the map when the predicate holds. -/
def Analyzer.recordMapExecution (name owner : NodeName) (presence : CompletionPredicate)
    (analyzer : Analyzer) : Analyzer :=
  { analyzer with
    mapExecutionCorrelations :=
      OrdMap.insert name ⟨owner, presence⟩ analyzer.mapExecutionCorrelations }

/-- What holds when control has passed the child. -/
def Analyzer.presenceAfter (analyzer : Analyzer) (identity : NodeIdentity) (name : NodeName)
    (presence : CompletionPredicate) : CompletionPredicate :=
  if analyzer.mayFallThrough identity then
    .allOf [presence, (OrdMap.get? analyzer.nodeCompletion name).getD .always]
  else .never

mutual

/-- `collect_map_node_execution`. -/
def collectMapNodeExecution (owner : NodeName) (node : GraphNode) (identity : NodeIdentity)
    (presence : CompletionPredicate) (analyzer : Analyzer) : Analyzer :=
  match node with
  | .step step => analyzer.recordMapExecution step.name owner presence
  | .verifier verifier => analyzer.recordMapExecution verifier.name owner presence
  | .seq _ children => collectSeqExecution owner children identity 0 presence analyzer
  | .choice _ branches otherwise =>
    collectOtherwiseExecution owner otherwise (identity ++ [branches.length])
      (.allOf [presence, choiceOtherwiseCompletionPredicate branches])
      (collectRouteExecution owner branches (choiceBranchCompletionPredicates branches) identity 0
        presence analyzer)
  | .par group branches join =>
    let analyzer := analyzer.recordMapExecution group.name owner presence
    if parallelRequiredCompletions join branches.length = branches.length then
      collectBranchExecution owner branches identity 0 presence analyzer
    else analyzer
  | .loop group body _ _ _ =>
    collectMapNodeExecution owner body (identity ++ [0]) presence
      (analyzer.recordMapExecution group.name owner presence)
  | .map group _ _ _ => analyzer.recordMapExecution group.name owner presence
  | .succeed _ => analyzer
  | .fail _ => analyzer

def collectSeqExecution (owner : NodeName) (children : List GraphNode) (identity : NodeIdentity)
    (index : Nat) (presence : CompletionPredicate) (analyzer : Analyzer) : Analyzer :=
  match children with
  | [] => analyzer
  | child :: children =>
    let analyzer :=
      collectMapNodeExecution owner child (identity ++ [index]) presence analyzer
    collectSeqExecution owner children identity (index + 1)
      (analyzer.presenceAfter (identity ++ [index]) child.name presence) analyzer

def collectRouteExecution (owner : NodeName) (branches : List (Guard × GraphNode))
    (presences : List CompletionPredicate) (identity : NodeIdentity) (index : Nat)
    (presence : CompletionPredicate) (analyzer : Analyzer) : Analyzer :=
  match branches, presences with
  | (_, node) :: branches, first :: presences =>
    collectRouteExecution owner branches presences identity (index + 1) presence
      (collectMapNodeExecution owner node (identity ++ [index]) (.allOf [presence, first])
        analyzer)
  | _, _ => analyzer

def collectOtherwiseExecution (owner : NodeName) (otherwise : Option GraphNode)
    (identity : NodeIdentity) (presence : CompletionPredicate) (analyzer : Analyzer) : Analyzer :=
  match otherwise with
  | none => analyzer
  | some node => collectMapNodeExecution owner node identity presence analyzer

def collectBranchExecution (owner : NodeName) (branches : List GraphNode)
    (identity : NodeIdentity) (index : Nat) (presence : CompletionPredicate)
    (analyzer : Analyzer) : Analyzer :=
  match branches with
  | [] => analyzer
  | branch :: branches =>
    collectBranchExecution owner branches identity (index + 1) presence
      (collectMapNodeExecution owner branch (identity ++ [index]) presence analyzer)

end

/-- `map_effects`. -/
def mapEffects (name : NodeName) (incoming : Flow) (body : Effects) : Effects :=
  { definiteNodes := [name]
    exitFailed := OrdSet.extend incoming.failed body.exitFailed
    fallsThrough := true
    completion := .always }

/-- `indexed_map_write`. -/
def indexedMapWrite (target : FieldPath) (element : PayloadType) : WriteFact :=
  ⟨.array element, guaranteedWritePaths target (.array element) true⟩

/-- `collect_definite_indexed_write`. -/
def collectDefiniteIndexedWrite (body : Effects) (target : FieldPath) (effects : Effects) :
    Effects :=
  match OrdMap.get? body.definiteWrites target with
  | none => effects
  | some write =>
    let write := indexedMapWrite target write.valueType
    { effects with
      definiteWrites := OrdMap.insert target write effects.definiteWrites
      possibleWrites := OrdMap.insert target write effects.possibleWrites }

/-- `collect_outcome_indexed_writes`. -/
def collectOutcomeIndexedWrites (body : Effects) (target : FieldPath) (effects : Effects) :
    Effects :=
  body.outcomeOrder.foldl (fun effects name =>
    match body.outcomeWrite name target with
    | none => effects
    | some write =>
      { effects with
        outcomeWrites := OrdMap.alter name []
          (OrdMap.insert target (indexedMapWrite target write.valueType)) effects.outcomeWrites
        outcomeOrder := if effects.outcomeOrder.contains name then effects.outcomeOrder
          else effects.outcomeOrder ++ [name] }) effects

/-- `collect_possible_indexed_write`. -/
def collectPossibleIndexedWrite (body : Effects) (target : FieldPath) (expected : PayloadType)
    (effects : Effects) : Effects :=
  let types := ((OrdMap.get? body.possibleWriteTypes target).getD []).map .array
  let effects :=
    if types.isEmpty then effects
    else { effects with
      possibleWriteTypes := OrdMap.insert target types effects.possibleWriteTypes }
  match OrdMap.get? body.possibleWrites target with
  | some write =>
    { effects with
      possibleWrites := OrdMap.insert target (indexedMapWrite target write.valueType)
        effects.possibleWrites }
  | none =>
    if (OrdMap.values effects.outcomeWrites).any fun writes => OrdMap.contains writes target then
      { effects with
        possibleWrites := OrdMap.insert target (indexedMapWrite target expected)
          effects.possibleWrites }
    else effects

/-- `collect_indexed_map_writes`. -/
def collectIndexedMapWrites (body : Effects) (promoted : List FieldPath) (targets : Definitions)
    (effects : Effects) : Effects :=
  promoted.foldl (fun effects target =>
    match OrdMap.get? targets target with
    | none => effects
    | some expected =>
      collectPossibleIndexedWrite body target expected
        (collectOutcomeIndexedWrites body target
          (collectDefiniteIndexedWrite body target effects))) effects

/-- `validate_map`. -/
def validateMap (group : Group) (body : GraphNode) (overItems : DataSelector)
    (maxItems : PositiveInteger) (identity : NodeIdentity) (validate : Validator)
    (context : NodeValidationContext) (path : DiagnosticPath) : Analysis Effects := do
  emitIf (maxMapItems < maxItems.get) .ceilingExceeded
    ("maxItems exceeds full-v1 limit " ++ toString maxMapItems) (withField path "maxItems")
    [group.name]
  let (inherited, own) ← mapIndexTargets group context path 0 group.promotedStatePaths
    (context.mapIndexTargets.getD [], [])
  let item ← validateMapSelector group overItems context path
  let bodyEffects ← validate
    { incoming := context.incoming, state := group.state, item, mapIndexTargets := some inherited }
  update (collectMapNodeExecution group.name body (identity ++ [0]) .always)
  restrictPromotions group context
    (collectIndexedMapWrites bodyEffects group.promotedStatePaths own
      (mapEffects group.name context.incoming bodyEffects)) .map path

/-! ## The tree -/

/-- `validate_succeed`. -/
def validateSucceed (terminal : SucceedNode) (context : NodeValidationContext)
    (path : DiagnosticPath) : Analysis Effects := do
  validateInputBindings terminal.bindings terminal.output context path "bindings" "output"
  pure (Effects.terminal terminal.name context.incoming)

/-- `validate_node` around the validation of its kind. -/
def validateAs (identity : NodeIdentity) (node : GraphNode)
    (validate : NodeValidationContext → DiagnosticPath → Analysis Effects) : Validator :=
  fun context => do
    let analyzer ← read
    let path := analyzer.nodePath node.name
    validateGroupState node context path
    let effects ← validate context path
    update fun analyzer =>
      { analyzer with
        nodeCompletion := OrdMap.insert node.name effects.completion analyzer.nodeCompletion
        nodeFallthrough := OrdMap.insert identity effects.fallsThrough analyzer.nodeFallthrough }
    pure effects

mutual

/-- `validate_node`. -/
def validateNode (graph : GraphSpec) (identity : NodeIdentity) (node : GraphNode) : Validator :=
  match node with
  | .step step => validateAs identity (.step step) fun context path =>
    validateExecutable step.name step.input step.output step.inputBindings step.writeBindings
      context path
  | .verifier verifier => validateAs identity (.verifier verifier) fun context path =>
    validateExecutable verifier.name verifier.input verifier.output verifier.inputBindings
      verifier.writeBindings context path
  | .seq group children => validateAs identity (.seq group children)
    (validateSeq graph.root group (validateNodes graph identity 0 children))
  | .choice group branches otherwise => validateAs identity (.choice group branches otherwise)
    (validateChoiceNode graph.root group branches otherwise
      (validateBranches graph identity 0 branches)
      (validateFallback graph (identity ++ [branches.length]) otherwise))
  | .par group branches join => validateAs identity (.par group branches join)
    (validatePar graph.root group branches join (validateNodes graph identity 0 branches))
  | .loop group body untilGuard maxIterations maxIterationsInput =>
    validateAs identity (.loop group body untilGuard maxIterations maxIterationsInput)
      (validateLoop graph group untilGuard maxIterationsInput
        (validateNode graph (identity ++ [0]) body))
  | .map group body overItems maxItems => validateAs identity (.map group body overItems maxItems)
    (validateMap group body overItems maxItems identity (validateNode graph (identity ++ [0]) body))
  | .succeed terminal => validateAs identity (.succeed terminal) (validateSucceed terminal)
  | .fail terminal => validateAs identity (.fail terminal) fun context _ =>
    pure (Effects.terminal terminal.name context.incoming)

/-- The validators of the children from `index` on. -/
def validateNodes (graph : GraphSpec) (identity : NodeIdentity) (index : Nat)
    (nodes : List GraphNode) : List Validator :=
  match nodes with
  | [] => []
  | node :: nodes =>
    validateNode graph (identity ++ [index]) node :: validateNodes graph identity (index + 1) nodes

/-- The validators of the branches from `index` on. -/
def validateBranches (graph : GraphSpec) (identity : NodeIdentity) (index : Nat)
    (branches : List (Guard × GraphNode)) : List Validator :=
  match branches with
  | [] => []
  | (_, node) :: branches =>
    validateNode graph (identity ++ [index]) node ::
      validateBranches graph identity (index + 1) branches

/-- The validator of a fallback. -/
def validateFallback (graph : GraphSpec) (identity : NodeIdentity) (otherwise : Option GraphNode) :
    Option Validator :=
  match otherwise with
  | none => none
  | some node => some (validateNode graph identity node)

end

end Zeroshot
