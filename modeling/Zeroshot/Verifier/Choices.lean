import Zeroshot.Verifier.Bindings

set_option autoImplicit false

/-!
# Sequences, choices and loops

What the verifier learns about the groups that run one child at a time. A child is validated by a
`Validator`, which still waits for the context it is reached in; the group decides that context.

A choice may write the same path on every completing branch although no single write is definite;
it then owns a synthetic outcome of its own, whose condition (`choice_write_conditions`) says when
those writes have happened.
-/

namespace Zeroshot

open Reporting

/-- A child that waits for the context it is validated in. -/
abbrev Validator := NodeValidationContext → Analysis Effects

/-- `NonEmptyEnumSet::new`; a set built by insertion is in order. -/
def NonEmptyEnumSet.new (values : List EnumLabel) : Option NonEmptyEnumSet :=
  let values := OrdSet.ofList values
  if h : values ≠ [] ∧ values.length ≤ maxCollectionItems ∧
      values.Pairwise (fun a b => compare a b = .lt) then some ⟨values, h.1, h.2.1, h.2.2⟩
  else none

/-- `validate_group_state`. -/
def validateGroupState (node : GraphNode) (context : NodeValidationContext)
    (path : DiagnosticPath) : Analysis Unit :=
  emitIf (node.state.any fun state =>
      !context.state.isSubtypeWithDefinitions state context.incoming.defined) .schemaSafety
    "incoming state is not a subtype of the group's declared state" (withField path "state")
    [node.name]

/-! ## Sequences -/

namespace Analyzer

/-- `invalidate_choice_writes`. -/
def invalidateChoiceWrites (analyzer : Analyzer) (pending : OutcomeWrites) (later : Writes) :
    OutcomeWrites :=
  (pending.map fun entry =>
    if OrdMap.contains analyzer.choiceWriteConditions entry.1 then
      (entry.1, entry.2.filter fun write =>
        !(OrdMap.keys later).any fun target => pathsOverlap write.1 target)
    else entry).filter fun entry => !entry.2.isEmpty

end Analyzer

/-- The accumulators of `validate_seq`. -/
structure SeqProgress where
  flow : Flow
  effects : Effects
  fallsThrough : Bool
  completion : CompletionPredicate

/-- Add what a child did to the effects of its sequence. -/
def Effects.compose (effects child : Effects) : Effects :=
  let outcomes := mergeOutcomeWrites effects.outcomeWrites effects.outcomeOrder
    child.outcomeWrites child.outcomeOrder
  { effects with
    definiteNodes := OrdSet.extend effects.definiteNodes child.definiteNodes
    unavailableNodes := OrdSet.extend effects.unavailableNodes child.unavailableNodes
    conditionalNodes := mergeConditionalNodes effects.conditionalNodes child.conditionalNodes
    definiteWrites := composeWrites effects.definiteWrites child.definiteWrites
    possibleWrites := OrdMap.extend effects.possibleWrites child.possibleWrites
    possibleWriteTypes :=
      mergePossibleWriteTypes effects.possibleWriteTypes child.possibleWriteTypes
    outcomeWrites := outcomes.1
    outcomeOrder := outcomes.2
    parallelDefinitionEffects := mergeParallelDefinitionEffects effects.parallelDefinitionEffects
      child.definiteWrites child.parallelDefinitionEffects }

/-- The body of the loop of `validate_seq`. -/
def validateSeqChild (root : GraphNode) (group : Group) (context : NodeValidationContext)
    (path : DiagnosticPath) (validate : Validator) (progress : SeqProgress) :
    Analysis SeqProgress := do
  let child ← validate { context with incoming := progress.flow, state := group.state }
  let analyzer ← read
  let flow := { progress.flow with
    outcomeWrites :=
      analyzer.invalidateChoiceWrites progress.flow.outcomeWrites child.possibleWrites }
  let effects := { progress.effects with
    outcomeWrites :=
      analyzer.invalidateChoiceWrites progress.effects.outcomeWrites child.possibleWrites }
  let flow := if progress.fallsThrough then flow.applyEffects child else flow
  let completion := CompletionPredicate.allOf [progress.completion, child.completion]
  let fallsThrough ←
    if progress.fallsThrough && child.fallsThrough then do
      let satisfiable ← completionIsSatisfiable root completion path
      pure (satisfiable.getD true)
    else pure false
  let effects := effects.compose child
  pure ⟨flow, if fallsThrough then effects.resolveSuccessfulWrites flow.failed else effects,
    fallsThrough, completion⟩

/-- The loop of `validate_seq`. -/
def validateSeqChildren (root : GraphNode) (group : Group) (context : NodeValidationContext)
    (path : DiagnosticPath) : List Validator → SeqProgress → Analysis SeqProgress
  | [], progress => pure progress
  | validate :: rest, progress => do
    let progress ← validateSeqChild root group context path validate progress
    validateSeqChildren root group context path rest progress

/-- `validate_seq`. -/
def validateSeq (root : GraphNode) (group : Group) (children : List Validator)
    (context : NodeValidationContext) (path : DiagnosticPath) : Analysis Effects := do
  let progress ← validateSeqChildren root group context path children
    ⟨context.incoming, {}, true, .always⟩
  restrictPromotions group context
    { progress.effects with
      exitFailed := progress.flow.failed
      fallsThrough := progress.fallsThrough
      completion := progress.completion
      definiteNodes := OrdSet.insert group.name progress.effects.definiteNodes }
    .definite path

/-! ## Choices -/

/-- The fact a resolved write leaves of a pending one at the same path. -/
def boundByDefinite (path : FieldPath) : Writes → WriteFact → Option WriteFact
  | [], fact => some fact
  | (target, definite) :: writes, fact =>
    if !pathsOverlap target path then boundByDefinite path writes fact
    else if target ≠ path then none
    else (intersectWriteFacts fact definite).bind (boundByDefinite path writes)

/-- The writer loop of `choice_path_fact`, last writer first; the outer `none` when no pending
writer writes the path, the inner one when the fact cannot be stated. -/
def pendingPathFact (branch : Effects) (path : FieldPath) :
    List NodeName → Option (Option (WriteFact × Option NodeName))
  | [] => none
  | name :: names =>
    match OrdMap.get? branch.outcomeWrites name with
    | none => pendingPathFact branch path names
    | some writes =>
      if (OrdMap.keys writes).any fun target => target ≠ path && pathsOverlap target path then
        some none
      else
        match OrdMap.get? writes path with
        | some write => some ((boundByDefinite path branch.definiteWrites write).map fun fact =>
            (fact, some name))
        | none => pendingPathFact branch path names

/-- `choice_path_fact`. -/
def choicePathFact (branch : Effects) (path : FieldPath) : Option (WriteFact × Option NodeName) :=
  match pendingPathFact branch path branch.outcomeOrder.reverse with
  | some fact => fact
  | none => (OrdMap.get? branch.definiteWrites path).map fun write => (write, none)

/-- `choice_producer_success`. -/
def Analyzer.choiceProducerSuccess (analyzer : Analyzer) (name : NodeName) : CompletionPredicate :=
  match OrdMap.get? analyzer.choiceWriteConditions name with
  | some condition => condition
  | none =>
    match NonEmptyEnumSet.new errorLabels with
    | none => .never
    | some labels => CompletionPredicate.negate (.guard (.inLabels ⟨name, .error, none⟩ labels))

/-- The executables a completing branch runs and the choice as a whole may not. -/
def branchExecutables (analyzer : Analyzer) (merged branch : Effects) : List NodeName :=
  branch.definiteNodes.filter fun name =>
    !OrdSet.contains merged.definiteNodes name &&
      (OrdMap.get? analyzer.nodes name).any fun info => info.node.isExecutable

/-- Record when each executable of a completing branch has run. -/
def recordChoiceExecutions (choice : NodeName) (merged : Effects) (completing : List Effects)
    (analyzer : Analyzer) : Analyzer :=
  completing.foldl (fun analyzer branch =>
    (branchExecutables analyzer merged branch).foldl (fun analyzer name =>
      { analyzer with
        choiceExecutionCorrelations := OrdMap.alter name []
          (fun known => known ++ [⟨choice, branch.completion⟩])
          analyzer.choiceExecutionCorrelations }) analyzer) analyzer

/-- The paths all completing branches write, with the common fact and, branch by branch, the
outcome it depends on. -/
def commonChoiceWrites (merged : Effects) (completing : List Effects) :
    List (FieldPath × WriteFact × List (Option NodeName)) :=
  match completing with
  | [] => []
  | first :: _ =>
    let candidates := OrdSet.ofList (OrdMap.keys first.definiteWrites ++
      (OrdMap.values first.outcomeWrites).flatMap OrdMap.keys)
    candidates.filterMap fun path =>
      if OrdMap.contains merged.definiteWrites path then none
      else
        (completing.mapM fun branch => choicePathFact branch path).bind fun facts =>
          (intersectWriteFactSet (facts.map Prod.fst)).map fun common =>
            (path, common, facts.map Prod.snd)

/-- When the common writes of a choice have happened. -/
def choiceWriteCondition (analyzer : Analyzer) (completing : List Effects)
    (writes : List (FieldPath × WriteFact × List (Option NodeName))) : CompletionPredicate :=
  .anyOf (completing.zipIdx.map fun entry =>
    let producers := OrdSet.ofList (writes.filterMap fun write => write.2.2[entry.2]?.join)
    .allOf (entry.1.completion :: producers.map analyzer.choiceProducerSuccess))

/-- `correlate_choice_writes`. -/
def correlateChoiceWrites (choice : NodeName) (alternatives : List Effects) (merged : Effects) :
    Analysis Effects := do
  let completing := alternatives.filter Effects.fallsThrough
  update (recordChoiceExecutions choice merged completing)
  let writes := commonChoiceWrites merged completing
  if writes.isEmpty then pure merged
  else
    update fun analyzer =>
      { analyzer with
        choiceWriteConditions := OrdMap.insert choice
          (choiceWriteCondition analyzer completing writes) analyzer.choiceWriteConditions }
    pure { merged with
      outcomeWrites := OrdMap.insert choice (writes.map fun write => (write.1, write.2.1))
        merged.outcomeWrites
      outcomeOrder := merged.outcomeOrder ++ [choice]
      exitFailed := OrdSet.insert choice merged.exitFailed }

/-- One route of a choice, entered with the refinement and completing under the condition. -/
def validateRoute (root : GraphNode) (group : Group) (context : NodeValidationContext)
    (path : DiagnosticPath) (validate : Validator) (refinement : OutcomeRefinement)
    (completion : CompletionPredicate) : Analysis Effects := do
  let flow := refinement.apply context.incoming
  let effects ← validate { context with incoming := flow, state := group.state }
  let effects ← restrictCompletion root effects completion path
  pure { effects with
    unavailableNodes := OrdSet.extend effects.unavailableNodes flow.unavailable }

/-- `validate_choice_branches`: a branch no assignment reaches is left out. -/
def validateChoiceBranches (root : GraphNode) (group : Group) (context : NodeValidationContext)
    (path : DiagnosticPath) :
    List (Validator × Bool × OutcomeRefinement × CompletionPredicate) → Analysis (List Effects)
  | [] => pure []
  | (validate, reachable, refinement, completion) :: routes =>
    if !reachable then validateChoiceBranches root group context path routes
    else do
      let effects ← validateRoute root group context path validate refinement completion
      let rest ← validateChoiceBranches root group context path routes
      pure (effects :: rest)

/-- The fallback of `validate_choice_node`. -/
def validateOtherwise (root : GraphNode) (group : Group) (context : NodeValidationContext)
    (path : DiagnosticPath) (control : ChoiceControl) (otherwise : Option Validator) :
    Analysis (List Effects) :=
  match otherwise, control.otherwiseReachable with
  | some validate, true => do
    let effects ← validateRoute root group context path validate control.otherwise
      control.otherwiseCompletion
    pure [effects]
  | _, _ =>
    if control.exhaustive then pure []
    else pure [{
      unavailableNodes := context.incoming.unavailable
      exitFailed := context.incoming.failed
      fallsThrough := true
      completion := control.otherwiseCompletion }]

/-- `validate_choice_node`. -/
def validateChoiceNode (root : GraphNode) (group : Group) (branches : List (Guard × GraphNode))
    (otherwise : Option GraphNode) (branchValidators : List Validator)
    (otherwiseValidator : Option Validator) (context : NodeValidationContext)
    (path : DiagnosticPath) : Analysis Effects := do
  let control ← validateChoice root group.name branches otherwise context.incoming path
  update fun analyzer =>
    { analyzer with
      choiceReachability := OrdMap.insert group.name
        ⟨control.branchReachable, control.otherwiseReachable⟩ analyzer.choiceReachability }
  let routed ← validateChoiceBranches root group context path
    (branchValidators.zip (control.branchReachable.zip
      (control.branches.zip control.branchCompletion)))
  let fallback ← validateOtherwise root group context path control otherwiseValidator
  let alternatives := routed ++ fallback
  let effects ← correlateChoiceWrites group.name alternatives (mergeAlternatives alternatives)
  restrictPromotions group context
    { effects with definiteNodes := OrdSet.insert group.name effects.definiteNodes }
    .everyAlternative path

/-! ## Loops -/

/-- A selector a loop exit may read: a verifier, or the error of a step, that runs in every
iteration. -/
def Analyzer.exitSelectorGuaranteed (analyzer : Analyzer) (body : Effects)
    (selector : ControlSelector) : Bool :=
  OrdSet.contains body.definiteNodes selector.name &&
    (OrdMap.get? analyzer.nodes selector.name).any fun info =>
      match info.node with
      | .verifier _ => true
      | .step _ => selector.source == .error
      | _ => false

/-- The selector loop of `validate_loop_exit`. -/
def validateExitSelectors (group : Group) (body : Effects) (path : DiagnosticPath) :
    List ControlSelector → Analysis Unit
  | [] => pure ()
  | selector :: selectors => do
    let analyzer ← read
    emitIf (!analyzer.exitSelectorGuaranteed body selector) .loopExitSatisfiability
      ("loop exit selector " ++ selector.name.asStr ++
        " must select a verifier or a step error guaranteed in every iteration")
      path [selector.name, group.name]
    validateExitSelectors group body path selectors

/-- `validate_loop_exit`. -/
def validateLoopExit (root : GraphNode) (group : Group) (untilGuard : Option Guard)
    (context : NodeValidationContext) (body : Effects) (path : DiagnosticPath) : Analysis Unit :=
  match untilGuard with
  | none => pure ()
  | some exit => do
    let available := OrdSet.extend context.incoming.available body.definiteNodes
    let exitPath := withField path "until"
    let valid ← validateGuard root exit available exitPath .loopExitSatisfiability
    validateExitSelectors group body exitPath exit.selectors
    if valid then
      let satisfiable ← guardHasSatisfyingAssignment root exit exitPath
      emitIf (!satisfiable) .loopExitSatisfiability "loop exit guard is unsatisfiable" exitPath
        [group.name]
    else pure ()

/-- `validate_loop`. The body is validated once, as the first iteration meets it. -/
def validateLoop (graph : GraphSpec) (group : Group) (untilGuard : Option Guard)
    (maxIterationsInput : Option FieldPath) (body : Validator) (context : NodeValidationContext)
    (path : DiagnosticPath) : Analysis Effects := do
  emitIf (maxIterationsInput.any fun selected =>
      decide (graph.initialInput.pathType selected ≠ some .integer)) .schemaSafety
    "maxIterationsInput must select an integer in initialInput"
    (withField path "maxIterationsInput") [group.name]
  let effects ← body { context with state := group.state }
  validateLoopExit graph.root group untilGuard context effects path
  restrictPromotions group context
    { effects with definiteNodes := OrdSet.insert group.name effects.definiteNodes }
    .definite path

end Zeroshot
