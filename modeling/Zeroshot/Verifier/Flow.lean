import Zeroshot.Verifier.Assignments
import Zeroshot.Verifier.Payload

set_option autoImplicit false

/-!
# Definition flow

What is known on every path that reaches a node (`Flow`) and what a node adds to it (`Effects`):
the nodes that have run, the paths that are written for sure, the paths an executable writes when
it succeeds, and what a parallel group takes back when its join is not reached.
-/

namespace Zeroshot

/-! ## Writes -/

/-- `WriteFact`: the type of a written value and the paths it is sure to define. -/
structure WriteFact where
  valueType : PayloadType
  guaranteedPaths : Definitions

abbrev Writes := OrdMap FieldPath WriteFact

abbrev OutcomeWrites := OrdMap NodeName Writes

structure DefinitionTransition where
  before : Option PayloadType
  after : Option PayloadType
  deriving DecidableEq

/-- `ParallelDefinitionEffect`: the definitions a join changes when it is reached. -/
structure ParallelDefinitionEffect where
  name : NodeName
  targets : OrdSet FieldPath
  transitions : OrdMap FieldPath DefinitionTransition
  deriving DecidableEq

/-- `intersect_write_facts`. -/
def intersectWriteFacts (left right : WriteFact) : Option WriteFact :=
  (left.valueType.commonSupertype right.valueType).map fun valueType =>
    ⟨valueType, left.guaranteedPaths.filterMap fun entry =>
      (OrdMap.get? right.guaranteedPaths entry.1).bind fun rightType =>
        (entry.2.commonSupertype rightType).map fun type => (entry.1, type)⟩

/-- `intersect_write_fact_set`. -/
def intersectWriteFactSet : List WriteFact → Option WriteFact
  | [] => none
  | first :: rest => rest.foldlM intersectWriteFacts first

/-- `apply_write_facts`. -/
def applyWriteFacts (defined : Definitions) (writes : Writes) : Definitions :=
  writes.foldl (fun defined entry =>
    OrdMap.extend (defined.filter fun known => !pathsOverlap entry.1 known.1)
      entry.2.guaranteedPaths) defined

/-- `compose_writes`. -/
def composeWrites (target source : Writes) : Writes :=
  source.foldl (fun target entry =>
    OrdMap.insert entry.1 entry.2 (target.filter fun prior => !pathsOverlap prior.1 entry.1)) target

/-- `parallel_definition_effect`. -/
def parallelDefinitionEffect (name : NodeName) (before : Definitions) (writes : Writes) :
    Option ParallelDefinitionEffect :=
  let after := applyWriteFacts before writes
  let targets := OrdMap.keys writes
  let paths := OrdSet.ofList ((OrdMap.keys before ++ OrdMap.keys after).filter fun path =>
    targets.any fun target => pathsOverlap target path)
  if paths.any fun path => decide (OrdMap.get? before path ≠ OrdMap.get? after path) then
    some ⟨name, targets, paths.map fun path =>
      (path, ⟨OrdMap.get? before path, OrdMap.get? after path⟩)⟩
  else none

/-- Keep the targets that pass, and the transitions below them. -/
def ParallelDefinitionEffect.restrict (keep : FieldPath → Bool)
    (effect : ParallelDefinitionEffect) : ParallelDefinitionEffect :=
  let targets := effect.targets.filter keep
  { effect with
    targets
    transitions := effect.transitions.filter fun entry =>
      targets.any fun target => pathIsPrefix target entry.1 }

def ParallelDefinitionEffect.isEmpty (effect : ParallelDefinitionEffect) : Bool :=
  effect.targets.isEmpty || effect.transitions.isEmpty

/-- `retain_parallel_definition_effects`. -/
def retainParallelDefinitionEffects (existing : List ParallelDefinitionEffect) (writes : Writes)
    (incoming : List ParallelDefinitionEffect) : List ParallelDefinitionEffect :=
  let conditional := incoming.flatMap ParallelDefinitionEffect.targets
  (existing.map (ParallelDefinitionEffect.restrict fun prior =>
    !(OrdMap.keys writes).any fun target =>
      !OrdSet.contains conditional target && pathsOverlap prior target)).filter fun effect =>
        !effect.isEmpty

/-- `merge_parallel_definition_effects`. -/
def mergeParallelDefinitionEffects (existing : List ParallelDefinitionEffect) (writes : Writes)
    (incoming : List ParallelDefinitionEffect) : List ParallelDefinitionEffect :=
  retainParallelDefinitionEffects existing writes incoming ++ incoming

/-- `writes_without_parallel_owners`. -/
def writesWithoutParallelOwners (writes : Writes) (conditional : List ParallelDefinitionEffect) :
    Writes :=
  writes.filter fun entry =>
    !(conditional.flatMap ParallelDefinitionEffect.targets).any fun owned =>
      pathsOverlap owned entry.1

/-- `merge_outcome_writes`. -/
def mergeOutcomeWrites (target : OutcomeWrites) (targetOrder : List NodeName)
    (source : OutcomeWrites) (sourceOrder : List NodeName) : OutcomeWrites × List NodeName :=
  (source.foldl (fun target entry =>
      OrdMap.alter entry.1 [] (fun writes => OrdMap.extend writes entry.2) target) target,
    sourceOrder.foldl (fun order name =>
      if OrdMap.contains source name && !order.contains name then order ++ [name] else order)
      targetOrder)

abbrev WriteTypes := OrdMap FieldPath (List PayloadType)

/-- `merge_possible_write_types`. -/
def mergePossibleWriteTypes (target source : WriteTypes) : WriteTypes :=
  source.foldl (fun target entry =>
    OrdMap.alter entry.1 [] (fun types => entry.2.foldl (fun types type =>
      if types.contains type then types else types ++ [type]) types) target) target

abbrev ConditionalNodes := OrdMap NodeName (OrdSet NodeName)

/-- `merge_conditional_nodes`. -/
def mergeConditionalNodes (target source : ConditionalNodes) : ConditionalNodes :=
  source.foldl (fun target entry =>
    OrdMap.alter entry.1 [] (fun nodes => OrdSet.extend nodes entry.2) target) target

/-- `retain_conditional_nodes`. -/
def retainConditionalNodes (conditional : ConditionalNodes) (definite : OrdSet NodeName) :
    ConditionalNodes :=
  (conditional.map fun entry =>
    (entry.1, entry.2.filter (OrdSet.contains definite))).filter fun entry => !entry.2.isEmpty

/-! ## Flow -/

structure Flow where
  available : OrdSet NodeName := []
  unavailable : OrdSet NodeName := []
  conditionalNodes : ConditionalNodes := []
  defined : Definitions := []
  failed : OrdSet NodeName := []
  outcomeWrites : OutcomeWrites := []
  outcomeOrder : List NodeName := []
  parallelDefinitionEffects : List ParallelDefinitionEffect := []

structure Effects where
  definiteNodes : OrdSet NodeName := []
  unavailableNodes : OrdSet NodeName := []
  conditionalNodes : ConditionalNodes := []
  definiteWrites : Writes := []
  possibleWrites : Writes := []
  possibleWriteTypes : WriteTypes := []
  outcomeWrites : OutcomeWrites := []
  outcomeOrder : List NodeName := []
  parallelDefinitionEffects : List ParallelDefinitionEffect := []
  exitFailed : OrdSet NodeName := []
  fallsThrough : Bool := false
  completion : CompletionPredicate := .never

namespace Flow

/-- One writer of `resolve_successful_writes`. -/
def resolveWriter (flow : Flow) (name : NodeName) : Flow :=
  match OrdMap.get? flow.outcomeWrites name with
  | none => flow
  | some writes =>
    { flow with
      outcomeWrites := OrdMap.remove flow.outcomeWrites name
      parallelDefinitionEffects :=
        retainParallelDefinitionEffects flow.parallelDefinitionEffects writes []
      defined := applyWriteFacts flow.defined writes }

/-- `Flow::resolve_successful_writes`. -/
def resolveSuccessfulWrites (flow : Flow) : Flow :=
  let successful := flow.outcomeOrder.filter fun name => !OrdSet.contains flow.failed name
  let flow := successful.foldl resolveWriter flow
  { flow with outcomeOrder := flow.outcomeOrder.filter (OrdMap.contains flow.outcomeWrites) }

/-- The definitions before any of the effects. -/
def definitionsBefore (effects : List ParallelDefinitionEffect) :
    OrdMap FieldPath (Option PayloadType) :=
  effects.foldl (fun definitions effect =>
    effect.transitions.foldl (fun definitions entry =>
      if OrdMap.contains definitions entry.1 then definitions
      else OrdMap.insert entry.1 entry.2.before definitions) definitions) []

/-- The definitions once the effect has happened. -/
def replayDefinitions (definitions : OrdMap FieldPath (Option PayloadType))
    (effect : ParallelDefinitionEffect) : OrdMap FieldPath (Option PayloadType) :=
  let cleared := definitions.map fun entry =>
    (entry.1, if effect.targets.any fun target => pathsOverlap target entry.1 then none
      else entry.2)
  effect.transitions.foldl (fun definitions entry =>
    OrdMap.insert entry.1 entry.2.after definitions) cleared

/-- `Flow::reconcile_parallel_definitions`. -/
def reconcileParallelDefinitions (flow : Flow) : Flow :=
  let effects := flow.parallelDefinitionEffects.filter fun effect =>
    OrdSet.contains flow.available effect.name
  let definitions := (effects.filter fun effect =>
    !OrdSet.contains flow.failed effect.name).foldl replayDefinitions (definitionsBefore effects)
  { flow with
    defined := definitions.foldl (fun defined entry =>
      match entry.2 with
      | some definition => OrdMap.insert entry.1 definition defined
      | none => OrdMap.remove defined entry.1) flow.defined }

/-- `Flow::apply_effects`. -/
def applyEffects (flow : Flow) (effects : Effects) : Flow :=
  let outcomes := mergeOutcomeWrites flow.outcomeWrites flow.outcomeOrder effects.outcomeWrites
    effects.outcomeOrder
  resolveSuccessfulWrites (reconcileParallelDefinitions
    { available := OrdSet.extend flow.available effects.definiteNodes
      unavailable := OrdSet.extend flow.unavailable effects.unavailableNodes
      conditionalNodes := mergeConditionalNodes flow.conditionalNodes effects.conditionalNodes
      defined := applyWriteFacts flow.defined effects.definiteWrites
      failed := effects.exitFailed
      outcomeWrites := outcomes.1
      outcomeOrder := outcomes.2
      parallelDefinitionEffects :=
        retainParallelDefinitionEffects flow.parallelDefinitionEffects effects.definiteWrites
          effects.parallelDefinitionEffects ++ effects.parallelDefinitionEffects })

end Flow

namespace Effects

/-- One writer of `Effects::resolve_successful_writes`. -/
def resolveWriter (effects : Effects) (name : NodeName) : Effects :=
  match OrdMap.get? effects.outcomeWrites name with
  | none => effects
  | some writes =>
    { effects with
      outcomeWrites := OrdMap.remove effects.outcomeWrites name
      parallelDefinitionEffects :=
        retainParallelDefinitionEffects effects.parallelDefinitionEffects writes []
      definiteWrites := composeWrites effects.definiteWrites writes }

/-- `Effects::resolve_successful_writes`. -/
def resolveSuccessfulWrites (effects : Effects) (failed : OrdSet NodeName) : Effects :=
  let successful := effects.outcomeOrder.filter fun name => !OrdSet.contains failed name
  let effects := successful.foldl resolveWriter effects
  { effects with
    outcomeOrder := effects.outcomeOrder.filter (OrdMap.contains effects.outcomeWrites) }

/-- `terminal_effects`. -/
def terminal (name : NodeName) (incoming : Flow) : Effects :=
  { definiteNodes := [name], exitFailed := incoming.failed }

/-- `retain_promoted_writes`. -/
def retainPromotedWrites (effects : Effects) (allowed : List FieldPath) : Effects :=
  let isPromoted := fun path : FieldPath => allowed.any fun promoted => pathIsPrefix promoted path
  let outcomeWrites := (effects.outcomeWrites.map fun entry =>
    (entry.1, entry.2.filter fun write => isPromoted write.1)).filter fun entry =>
      !entry.2.isEmpty
  { effects with
    definiteWrites := effects.definiteWrites.filter fun entry => isPromoted entry.1
    possibleWrites := effects.possibleWrites.filter fun entry => isPromoted entry.1
    possibleWriteTypes := effects.possibleWriteTypes.filter fun entry => isPromoted entry.1
    outcomeWrites
    outcomeOrder := effects.outcomeOrder.filter (OrdMap.contains outcomeWrites)
    parallelDefinitionEffects := (effects.parallelDefinitionEffects.map
      (ParallelDefinitionEffect.restrict isPromoted)).filter fun effect => !effect.isEmpty }

end Effects

/-! ## Alternatives -/

/-- Keep the facts the other branch has too. -/
def retainCommonWrites (writes other : Writes) : Writes :=
  writes.filterMap fun entry =>
    (OrdMap.get? other entry.1).bind fun write =>
      (intersectWriteFacts entry.2 write).map fun common => (entry.1, common)

/-- `CommonEffects::retain`. -/
def Effects.retainCommon (common branch : Effects) : Effects :=
  { common with
    definiteNodes := common.definiteNodes.filter (OrdSet.contains branch.definiteNodes)
    definiteWrites := retainCommonWrites common.definiteWrites branch.definiteWrites
    outcomeWrites := (common.outcomeWrites.filterMap fun entry =>
      (OrdMap.get? branch.outcomeWrites entry.1).map fun other =>
        (entry.1, retainCommonWrites entry.2 other)).filter fun entry => !entry.2.isEmpty
    parallelDefinitionEffects := common.parallelDefinitionEffects.filter fun effect =>
      branch.parallelDefinitionEffects.contains effect
    conditionalNodes := (common.conditionalNodes.filterMap fun entry =>
      (OrdMap.get? branch.conditionalNodes entry.1).map fun other =>
        (entry.1, entry.2.filter (OrdSet.contains other))).filter fun entry => !entry.2.isEmpty }

/-- One branch of `merge_alternatives` that completes. -/
def Effects.mergeCompleting (merged branch : Effects) : Effects :=
  let common := merged.retainCommon branch
  { common with
    unavailableNodes := OrdSet.extend common.unavailableNodes branch.unavailableNodes
    exitFailed := OrdSet.extend common.exitFailed branch.exitFailed }

/-- What any branch may write. -/
def possibleWritesOf (branches : List Effects) : Writes × WriteTypes :=
  branches.foldl (fun possible branch =>
    (OrdMap.extend possible.1 branch.possibleWrites,
      mergePossibleWriteTypes possible.2 branch.possibleWriteTypes)) ([], [])

/-- `merge_alternatives`. -/
def mergeAlternatives (branches : List Effects) : Effects :=
  let completing := branches.filter Effects.fallsThrough
  let possible := possibleWritesOf branches
  match completing with
  | [] => { possibleWrites := possible.1, possibleWriteTypes := possible.2 }
  | first :: _ =>
    let merged := completing.foldl Effects.mergeCompleting { first with exitFailed := [] }
    { merged with
      conditionalNodes := retainConditionalNodes merged.conditionalNodes merged.definiteNodes
      possibleWrites := possible.1
      possibleWriteTypes := possible.2
      outcomeOrder := merged.outcomeOrder.filter (OrdMap.contains merged.outcomeWrites)
      fallsThrough := true
      completion := .anyOf (completing.map Effects.completion) }

/-! ## Parallel scenarios -/

/-- `parallel_required_completions`. -/
def parallelRequiredCompletions (join : Join) (branchCount : Nat) : Nat :=
  match join with
  | .all => branchCount
  | .any => 1
  | .first _ => 1
  | .quorum count => count.get

/-- `parallel_fact_is_definite`: fewer completing branches lack the fact than the join needs. -/
def parallelFactIsDefinite (completing : OrdSet Nat) (required : Nat) (provides : Nat → Bool) :
    Bool :=
  (completing.filter fun index => !provides index).length < required

section

variable (branches : List Effects) (required : Nat) (scenarios : List (OrdSet Nat))

/-- The fact holds in every scenario. -/
def definiteInAll (provides : Effects → Bool) : Bool :=
  scenarios.all fun scenario =>
    parallelFactIsDefinite scenario required fun index => (branches[index]?).any provides

/-- What the completing branches of all scenarios provide. -/
def providersOf {α : Type} (provide : Effects → Option α) : List α :=
  scenarios.flatten.filterMap fun index => (branches[index]?).bind provide

/-- `parallel_definite_nodes`. -/
def parallelDefiniteNodes : OrdSet NodeName :=
  (OrdSet.ofList (branches.flatMap Effects.definiteNodes)).filter fun name =>
    definiteInAll branches required scenarios fun branch =>
      OrdSet.contains branch.definiteNodes name

/-- `parallel_definite_writes`. -/
def parallelDefiniteWrites : Writes :=
  (OrdSet.ofList (branches.flatMap fun branch => OrdMap.keys branch.definiteWrites)).filterMap
    fun path =>
      if definiteInAll branches required scenarios fun branch =>
          OrdMap.contains branch.definiteWrites path then
        (intersectWriteFactSet (providersOf branches scenarios fun branch =>
          OrdMap.get? branch.definiteWrites path)).map fun write => (path, write)
      else none

/-- The write an outcome makes at a path. -/
def Effects.outcomeWrite (effects : Effects) (name : NodeName) (path : FieldPath) :
    Option WriteFact :=
  (OrdMap.get? effects.outcomeWrites name).bind fun writes => OrdMap.get? writes path

/-- `parallel_outcome_writes`. -/
def parallelOutcomeWrites : OutcomeWrites :=
  let candidates := branches.flatMap fun branch => branch.outcomeWrites.flatMap fun entry =>
    (OrdMap.keys entry.2).map fun path => (entry.1, path)
  candidates.foldl (fun merged candidate =>
    if definiteInAll branches required scenarios fun branch =>
        (branch.outcomeWrite candidate.1 candidate.2).isSome then
      match intersectWriteFactSet (providersOf branches scenarios fun branch =>
          branch.outcomeWrite candidate.1 candidate.2) with
      | some write => OrdMap.alter candidate.1 [] (OrdMap.insert candidate.2 write) merged
      | none => merged
    else merged) []

/-- `parallel_definition_effects`. -/
def parallelDefinitionEffects : List ParallelDefinitionEffect :=
  (branches.flatMap Effects.parallelDefinitionEffects).foldl (fun definite candidate =>
    if definite.contains candidate then definite
    else if definiteInAll branches required scenarios fun branch =>
        branch.parallelDefinitionEffects.contains candidate then definite ++ [candidate]
    else definite) []

/-- `merge_parallel_scenarios`. -/
def mergeParallelScenarios : Effects :=
  let possible := possibleWritesOf branches
  if scenarios.isEmpty then { possibleWrites := possible.1, possibleWriteTypes := possible.2 }
  else
    let definiteNodes := parallelDefiniteNodes branches required scenarios
    let outcomeWrites := parallelOutcomeWrites branches required scenarios
    { definiteNodes
      unavailableNodes := OrdSet.ofList (branches.flatMap Effects.unavailableNodes)
      conditionalNodes := retainConditionalNodes
        (branches.foldl
          (fun nodes branch => mergeConditionalNodes nodes branch.conditionalNodes) [])
        definiteNodes
      definiteWrites := parallelDefiniteWrites branches required scenarios
      possibleWrites := possible.1
      possibleWriteTypes := possible.2
      outcomeWrites
      outcomeOrder := (branches.flatMap Effects.outcomeOrder).filter
        (OrdMap.contains outcomeWrites)
      parallelDefinitionEffects := parallelDefinitionEffects branches required scenarios
      exitFailed := OrdSet.ofList (providersOf branches scenarios fun branch =>
        some branch.exitFailed).flatten
      fallsThrough := true }

end

/-! ## Choices -/

inductive PromotionRule
  | definite
  | everyAlternative
  | map
  deriving DecidableEq

/-- `OutcomeRefinement`: what a route says about earlier outcomes. -/
structure OutcomeRefinement where
  success : OrdSet NodeName := []
  failed : OrdSet NodeName := []

/-- `OutcomeRefinement::apply`. -/
def OutcomeRefinement.apply (refinement : OutcomeRefinement) (flow : Flow) : Flow :=
  let failed := flow.failed.filter fun name => !OrdSet.contains refinement.success name
  let unavailable := refinement.failed.foldl (fun unavailable name =>
    OrdSet.extend unavailable ((OrdMap.get? flow.conditionalNodes name).getD [])) flow.unavailable
  (Flow.reconcileParallelDefinitions
    { flow with
      failed := OrdSet.extend failed refinement.failed
      unavailable }).resolveSuccessfulWrites

/-- `is_parallel_group_control`. -/
def SelectorKey.isParallelGroupControl (key : SelectorKey) : Bool :=
  key.source == .group &&
    key.field.any fun field => field.asStr == "joined" || field.asStr == "raced"

/-- `assignment_has_failure`. -/
def assignmentHasFailure (assignment : Assignment) (name : NodeName) : Bool :=
  let controls := assignment.filter fun entry => entry.1.name == name
  let signals := controls.filter fun entry => entry.1.source == .signal
  (controls.any fun entry =>
    entry.1.source == .error && AssignedControl.occurs entry.2 ||
      entry.1.isParallelGroupControl && entry.2.any fun count =>
        decide (0 < count.2) &&
          (count.1.asStr == "quorum_unreachable" || count.1.asStr == "no_satisfier")) ||
    !signals.isEmpty && !signals.any fun entry => AssignedControl.occurs entry.2

/-- `outcome_refinement`. -/
def outcomeRefinement (assignments : List Assignment) : OutcomeRefinement :=
  let keys := (assignments.flatMap OrdMap.keys).filter fun key =>
    key.source == .signal || key.source == .error || key.isParallelGroupControl
  let names := OrdSet.ofList (keys.map SelectorKey.name)
  let fails := fun name => assignments.any fun assignment => assignmentHasFailure assignment name
  ⟨names.filter fun name => !fails name, names.filter fails⟩

/-- `ChoiceControl`. -/
structure ChoiceControl where
  branches : List OutcomeRefinement
  branchReachable : List Bool
  branchCompletion : List CompletionPredicate
  otherwise : OutcomeRefinement
  otherwiseReachable : Bool
  otherwiseCompletion : CompletionPredicate
  exhaustive : Bool

/-- `ChoiceControl::unknown`. -/
def ChoiceControl.unknown (branches : List (Guard × GraphNode)) (otherwise : Option GraphNode) :
    ChoiceControl :=
  ⟨branches.map fun _ => {}, branches.map fun _ => true, branches.map fun _ => .always, {},
    otherwise.isSome, .always, otherwise.isSome⟩

/-- The residual predicates of the branches after the guards in `earlier`. -/
def branchCompletionsAfter (earlier : List CompletionPredicate) :
    List (Guard × GraphNode) → List CompletionPredicate
  | [] => []
  | branch :: branches =>
    .allOf (earlier.map .negate ++ [.guard branch.1]) ::
      branchCompletionsAfter (earlier ++ [.guard branch.1]) branches

/-- `choice_branch_completion_predicates`. -/
def choiceBranchCompletionPredicates (branches : List (Guard × GraphNode)) :
    List CompletionPredicate :=
  branchCompletionsAfter [] branches

/-- `choice_otherwise_completion_predicate`. -/
def choiceOtherwiseCompletionPredicate (branches : List (Guard × GraphNode)) :
    CompletionPredicate :=
  .allOf (branches.map fun branch => CompletionPredicate.negate (.guard branch.1))

/-- `refine_common_choice_writes`, for one route and the assignments that take it. -/
def OutcomeRefinement.refine (conditions : List (NodeName × CompletionPredicate))
    (residual : List Assignment) (refinement : OutcomeRefinement) : OutcomeRefinement :=
  if residual.isEmpty then refinement
  else conditions.foldl (fun refinement condition =>
    if residual.all fun assignment => condition.2.evaluate assignment then
      ⟨OrdSet.insert condition.1 refinement.success,
        refinement.failed.filter fun name => name != condition.1⟩
    else refinement) refinement

/-- The route an assignment takes: the first branch whose guard holds, else the number of
branches. -/
def choiceRoute (branches : List (Guard × GraphNode)) (assignment : Assignment) : Nat :=
  branches.findIdx fun branch => evaluateGuard assignment branch.1

/-- `refine_common_choice_writes`. -/
def refineCommonChoiceWrites (control : ChoiceControl) (branches : List (Guard × GraphNode))
    (assignments : List Assignment) (conditions : List (NodeName × CompletionPredicate)) :
    ChoiceControl :=
  let residual := fun route => assignments.filter fun assignment =>
    choiceRoute branches assignment == route
  { control with
    branches := control.branches.zipIdx.map fun entry =>
      entry.1.refine conditions (residual entry.2)
    otherwise := control.otherwise.refine conditions (residual branches.length) }

end Zeroshot
