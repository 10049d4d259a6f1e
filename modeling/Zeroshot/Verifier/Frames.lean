import Zeroshot.Verifier.Bounds

set_option autoImplicit false

/-!
# What validation leaves alone

After the index is built no pass changes which nodes, names and loops it holds: the later passes
record dependencies, correlations, completions and reachability, and nothing else.
-/

namespace Zeroshot

open Reporting

/-- The part of the analyzer that only indexing writes. -/
def Analyzer.indexed (analyzer : Analyzer) :
    OrdMap NodeName NodeInfo × List NodeName × List NodeName :=
  (analyzer.nodes, analyzer.authored, analyzer.loops)

/-- The step leaves the index alone. -/
abbrev Keeps {α : Type} (x : Analysis α) : Prop := Preserves Analyzer.indexed x

@[simp] theorem emitDiagnostic_keeps (code : GraphDiagnosticCode) (message : String)
    (path : DiagnosticPath) (relatedNodes : List NodeName) :
    Keeps (emitDiagnostic code message path relatedNodes) := Preserves.report _

@[simp] theorem emitIf_keeps (condition : Bool) (code : GraphDiagnosticCode) (message : String)
    (path : DiagnosticPath) (relatedNodes : List NodeName) :
    Keeps (emitIf condition code message path relatedNodes) := Preserves.reportIf _ _

/-- Recorded dependencies are not part of the index. -/
@[simp] theorem addDependencies_indexed (name : NodeName) (others : List NodeName)
    (analyzer : Analyzer) : (analyzer.addDependencies name others).indexed = analyzer.indexed := rfl

theorem foldl_addDependencies_indexed {α : Type} (name : α → NodeName)
    (others : α → List NodeName) (values : List α) (analyzer : Analyzer) :
    (values.foldl (fun analyzer value => analyzer.addDependencies (name value) (others value))
      analyzer).indexed = analyzer.indexed := by
  induction values generalizing analyzer with
  | nil => rfl
  | cons value values ih => exact ih _

/-! ## Guards -/

@[simp] theorem assignmentsForGuards_keeps (root : GraphNode) (guards : List Guard)
    (path : DiagnosticPath) : Keeps (assignmentsForGuards root guards path) := by
  refine Preserves.read.bind fun analyzer => ?_
  cases analyzer.legalAssignments root guards with
  | some assignments => exact Preserves.pure _
  | none => exact (emitDiagnostic_keeps _ _ _ _).bind fun _ => Preserves.pure _

@[simp] theorem assignmentsForCompletionPredicates_keeps (root : GraphNode)
    (predicates : List CompletionPredicate) (path : DiagnosticPath) :
    Keeps (assignmentsForCompletionPredicates root predicates path) :=
  assignmentsForGuards_keeps _ _ _

@[simp] theorem restrictCompletion_keeps (root : GraphNode) (effects : Effects)
    (condition : CompletionPredicate) (path : DiagnosticPath) :
    Keeps (restrictCompletion root effects condition path) := by
  unfold restrictCompletion completionIsSatisfiable
  dsimp only
  split <;> simp

@[simp] theorem guardHasSatisfyingAssignment_keeps (root : GraphNode) (guard : Guard)
    (path : DiagnosticPath) : Keeps (guardHasSatisfyingAssignment root guard path) := by
  unfold guardHasSatisfyingAssignment
  simp

@[simp] theorem validateSelectorLabels_keeps (selector : ControlSelector) (labels : NonEmptyEnumSet)
    (path : DiagnosticPath) (code : GraphDiagnosticCode) (message : String) :
    Keeps (validateSelectorLabels selector labels path code message) := by
  unfold validateSelectorLabels
  simp

@[simp] theorem validateKOfNLabels_keeps (count : PositiveInteger)
    (selectors : List ControlSelector) (labels : NonEmptyEnumSet) (path : DiagnosticPath)
    (code : GraphDiagnosticCode) : Keeps (validateKOfNLabels count selectors labels path code) := by
  have hintersections : ∀ selectors : List ControlSelector,
      Keeps (validateKOfNIntersections labels path code selectors) := by
    intro selectors
    induction selectors with
    | nil => exact Preserves.pure _
    | cons selector selectors ih =>
      exact Preserves.read.bind fun _ => (emitIf_keeps _ _ _ _ _).bind fun _ =>
        ih.bind fun _ => Preserves.pure _
  exact Preserves.read.bind fun _ => (emitIf_keeps _ _ _ _ _).bind fun _ =>
    (emitIf_keeps _ _ _ _ _).bind fun _ => (hintersections _).bind fun _ => Preserves.pure _

@[simp] theorem validateKOfMapLabels_keeps (root : GraphNode) (count : PositiveInteger)
    (selector : ControlSelector) (labels : NonEmptyEnumSet) (path : DiagnosticPath)
    (code : GraphDiagnosticCode) :
    Keeps (validateKOfMapLabels root count selector labels path code) := by
  unfold validateKOfMapLabels
  refine Preserves.read.bind fun analyzer => ?_
  have hlabels : ∀ valid : Bool, Keeps (do
      let labelsValid ← validateSelectorLabels selector labels path code
        "k_of_map labels exceed the selector's closed domain"
      pure (valid && labelsValid)) := fun _ =>
    (validateSelectorLabels_keeps _ _ _ _ _).bind fun _ => Preserves.pure _
  cases analyzer.mapControlScope root selector with
  | some aggregate => exact (emitIf_keeps _ _ _ _ _).bind fun _ => hlabels _
  | none => exact (emitDiagnostic_keeps _ _ _ _).bind fun _ => hlabels _

mutual

@[simp] theorem validateGuardLabels_keeps (root : GraphNode) (code : GraphDiagnosticCode) :
    ∀ (guard : Guard) (path : DiagnosticPath), Keeps (validateGuardLabels root code guard path)
  | .inLabels _ _, _ => validateSelectorLabels_keeps _ _ _ _ _
  | .all guards, path => validateNestedGuardLabels_keeps root code guards path 0
  | .any guards, path => validateNestedGuardLabels_keeps root code guards path 0
  | .not inner, path => validateGuardLabels_keeps root code inner (withField path "guard")
  | .kOfN _ _ _, _ => validateKOfNLabels_keeps _ _ _ _ _
  | .kOfMap _ _ _, _ => validateKOfMapLabels_keeps _ _ _ _ _ _

theorem validateNestedGuardLabels_keeps (root : GraphNode) (code : GraphDiagnosticCode) :
    ∀ (guards : List Guard) (path : DiagnosticPath) (index : Nat),
      Keeps (validateNestedGuardLabels root code guards path index)
  | [], _, _ => Preserves.pure _
  | guard :: guards, path, index =>
    (validateGuardLabels_keeps root code guard _).bind fun _ =>
      (validateNestedGuardLabels_keeps root code guards path (index + 1)).bind fun _ =>
        Preserves.pure _

end

@[simp] theorem controlIsAvailable_keeps (root : GraphNode) (available : OrdSet NodeName)
    (path : DiagnosticPath) (use : SelectorUse) :
    Keeps (controlIsAvailable root available path use) := by
  have hcovered : ∀ condition correlation,
      Keeps (choiceErrorIsCovered root available condition path correlation) := by
    intro condition correlation
    unfold choiceErrorIsCovered
    refine Preserves.read.bind fun analyzer => ?_
    split <;> simp
  have hany : ∀ condition correlations,
      Keeps (anyCorrelationCovers root available condition path correlations) := by
    intro condition correlations
    induction correlations with
    | nil => exact Preserves.pure _
    | cons correlation correlations ih =>
      refine (hcovered condition correlation).bind fun covered => ?_
      cases covered with
      | true => exact Preserves.pure _
      | false => exact ih
  unfold controlIsAvailable
  split
  · exact Preserves.pure _
  · unfold choiceErrorIsAvailable
    split
    · exact Preserves.pure _
    · exact Preserves.read.bind fun _ => hany _ _

@[simp] theorem validateGuard_keeps (root : GraphNode) (guard : Guard)
    (available : OrdSet NodeName) (path : DiagnosticPath) (code : GraphDiagnosticCode) :
    Keeps (validateGuard root guard available path code) := by
  have huses : ∀ uses, Keeps (validateSelectorUses root available path code uses) := by
    intro uses
    induction uses with
    | nil => exact Preserves.pure _
    | cons use uses ih =>
      exact (controlIsAvailable_keeps _ _ _ _).bind fun _ => (emitIf_keeps _ _ _ _ _).bind fun _ =>
        Preserves.read.bind fun _ => (emitIf_keeps _ _ _ _ _).bind fun _ =>
          ih.bind fun _ => Preserves.pure _
  exact (huses _).bind fun _ => (validateGuardLabels_keeps _ _ _ _).bind fun _ => Preserves.pure _

/-! ## Choices -/

@[simp] theorem validateChoiceGuards_keeps (root : GraphNode) (name : NodeName) (incoming : Flow)
    (path : DiagnosticPath) (index : Nat) (branches : List (Guard × GraphNode)) :
    Keeps (validateChoiceGuards root name incoming path index branches) := by
  induction branches generalizing index with
  | nil => exact Preserves.pure _
  | cons branch branches ih =>
    refine (validateGuard_keeps _ _ _ _ _).bind fun _ => ?_
    refine Preserves.bind (Preserves.update fun s => ?_) fun _ => ?_
    · exact foldl_addDependencies_indexed (fun _ => name)
        (fun selector : ControlSelector => [selector.name]) _ s
    · exact (ih _).bind fun _ => Preserves.pure _

@[simp] theorem choiceBranchOutcomes_keeps (name : NodeName) (path : DiagnosticPath) (index : Nat)
    (branches : List (Guard × GraphNode)) (uncovered : List Assignment) :
    Keeps (choiceBranchOutcomes name path index branches uncovered) := by
  induction branches generalizing index uncovered with
  | nil => exact Preserves.pure _
  | cons branch branches ih =>
    unfold choiceBranchOutcomes
    simp [ih]

@[simp] theorem recordChoiceExhaustiveness_keeps (name : NodeName) (otherwise : Option GraphNode)
    (uncovered : List Assignment) (path : DiagnosticPath) :
    Keeps (recordChoiceExhaustiveness name otherwise uncovered path) := by
  unfold recordChoiceExhaustiveness
  refine (emitIf_keeps _ _ _ _ _).bind fun _ => ?_
  cases otherwise with
  | none => simp
  | some node => simp

@[simp] theorem validateChoice_keeps (root : GraphNode) (name : NodeName)
    (branches : List (Guard × GraphNode)) (otherwise : Option GraphNode) (incoming : Flow)
    (path : DiagnosticPath) :
    Keeps (validateChoice root name branches otherwise incoming path) := by
  unfold validateChoice
  refine (validateChoiceGuards_keeps _ _ _ _ _ _).bind fun valid => ?_
  split
  · exact Preserves.pure _
  · refine Preserves.read.bind fun analyzer => ?_
    refine (assignmentsForGuards_keeps _ _ _).bind fun assignments => ?_
    cases assignments with
    | none => exact Preserves.pure _
    | some assignments => simp

/-! ## Bindings -/

@[simp] theorem validateDataSelector_keeps (selector : DataSelector)
    (context : NodeValidationContext) (path : DiagnosticPath) :
    Keeps (validateDataSelector selector context path) := by
  have hreport : ∀ selection, Keeps (reportSelection selection path) := by
    intro selection
    unfold reportSelection
    split <;> simp
  cases selector with
  | state selected => exact (hreport _).bind fun _ => Preserves.pure _
  | item selected =>
    unfold validateDataSelector
    cases context.item with
    | none => simp
    | some payload => exact (hreport _).bind fun _ => Preserves.pure _

@[simp] theorem validateTargetOverlap_keeps (target : FieldPath) (previous : List FieldPath)
    (path : DiagnosticPath) (message : String) (relatedNodes : List NodeName) :
    Keeps (validateTargetOverlap target previous path message relatedNodes) :=
  emitIf_keeps _ _ _ _ _

@[simp] theorem validateInputBindings_keeps (bindings : List InputBinding) (target : PayloadType)
    (context : NodeValidationContext) (nodePath : DiagnosticPath) (field targetField : String) :
    Keeps (validateInputBindings bindings target context nodePath field targetField) := by
  have hbinding : ∀ binding path, Keeps (validateInputBinding binding target context path) := by
    intro binding path
    unfold validateInputBinding
    refine (emitIf_keeps _ _ _ _ _).bind fun _ =>
      (validateDataSelector_keeps _ _ _).bind fun _ => ?_
    split <;> simp
  have hlist : ∀ bindings index targets,
      Keeps (validateBindingList target context nodePath field index targets bindings) := by
    intro bindings
    induction bindings with
    | nil => exact fun _ _ => Preserves.pure _
    | cons binding bindings ih =>
      intro index targets
      unfold validateBindingList
      simp [hbinding, ih]
  have hrequired : ∀ targets required,
      Keeps (validateRequiredTargets targets nodePath field required) := by
    intro targets required
    induction required with
    | nil => exact Preserves.pure _
    | cons first rest ih =>
      unfold validateRequiredTargets
      simp [ih]
  unfold validateInputBindings
  simp [hlist, hrequired]

@[simp] theorem validateWriteBindings_keeps (name : NodeName) (output : PayloadType)
    (context : NodeValidationContext) (nodePath : DiagnosticPath) (index : Nat) (writes : Writes)
    (targets : List FieldPath) (bindings : List WriteBinding) :
    Keeps (validateWriteBindings name output context nodePath index writes targets bindings) := by
  have hbinding : ∀ binding path,
      Keeps (validateWriteBinding binding name output context path) := by
    intro binding path
    have havailable : Keeps (validateOutputAvailability binding.value name context.incoming path) :=
      (emitIf_keeps _ _ _ _ _).bind fun _ => emitIf_keeps _ _ _ _ _
    have hselector : Keeps (validateOutputSelector binding.value name context.incoming output
        path) :=
      havailable.bind fun _ => Preserves.read.bind fun _ => (emitIf_keeps _ _ _ _ _).bind fun _ =>
        Preserves.pure _
    refine (emitIf_keeps _ _ _ _ _).bind fun _ => hselector.bind fun _ => ?_
    split <;> simp
  induction bindings generalizing index writes targets with
  | nil => exact Preserves.pure _
  | cons binding bindings ih =>
    unfold validateWriteBindings
    simp [hbinding, ih]

@[simp] theorem restrictPromotions_keeps (group : Group) (context : NodeValidationContext)
    (effects : Effects) (rule : PromotionRule) (path : DiagnosticPath) :
    Keeps (restrictPromotions group context effects rule path) := by
  have htarget : ∀ enclosing effects overrides promoted path,
      Keeps (validatePromotionTarget enclosing effects overrides promoted path) := by
    intro enclosing effects overrides promoted path
    unfold validatePromotionTarget
    split <;> simp
  have hpromotion : ∀ effects overrides promoted path,
      Keeps (validatePromotion group context.state effects rule overrides promoted path) := by
    intro effects overrides promoted path
    unfold validatePromotion
    split
    · simp
    · exact (htarget _ _ _ _ _).bind fun _ => .ite (Preserves.pure _) (emitIf_keeps _ _ _ _ _)
  have hpromotions : ∀ paths index, Keeps (validatePromotions group context.state effects rule
      context.mapIndexTargets path index paths) := by
    intro paths
    induction paths with
    | nil => exact fun _ => Preserves.pure _
    | cons promoted rest ih =>
      intro index
      unfold validatePromotions
      simp [hpromotion, ih]
  unfold restrictPromotions
  simp [hpromotions]

/-! ## Groups -/

/-- A validator that leaves the index alone in every context. -/
def KeepsIndex (validate : Validator) : Prop := ∀ context, Keeps (validate context)

theorem validateSeq_keeps (root : GraphNode) (group : Group) {children : List Validator}
    (hchildren : ∀ validate ∈ children, KeepsIndex validate) (context : NodeValidationContext)
    (path : DiagnosticPath) : Keeps (validateSeq root group children context path) := by
  have hchild : ∀ validate progress, KeepsIndex validate →
      Keeps (validateSeqChild root group context path validate progress) := by
    intro validate progress hvalidate
    have hend : ∀ (completion : CompletionPredicate) (f : Bool → SeqProgress), Keeps (do
        let satisfiable ← completionIsSatisfiable root completion path
        let fallsThrough ← pure (satisfiable.getD true)
        pure (f fallsThrough)) := by
      intro completion f
      unfold completionIsSatisfiable
      exact ((assignmentsForCompletionPredicates_keeps _ _ _).bind fun _ => Preserves.pure _).bind
        fun _ => (Preserves.pure _).bind fun _ => Preserves.pure _
    refine (hvalidate _).bind fun child => Preserves.read.bind fun analyzer => ?_
    exact .ite (hend _ _) ((Preserves.pure _).bind fun _ => Preserves.pure _)
  have hall : ∀ progress,
      Keeps (validateSeqChildren root group context path children progress) := by
    induction children with
    | nil => exact fun _ => Preserves.pure _
    | cons validate children ih =>
      intro progress
      rw [List.forall_mem_cons] at hchildren
      exact (hchild validate progress hchildren.1).bind fun _ => ih hchildren.2 _
  exact (hall _).bind fun _ => restrictPromotions_keeps _ _ _ _ _

/-- The records of a choice are not part of the index. -/
theorem recordChoiceExecutions_indexed (choice : NodeName) (merged : Effects)
    (completing : List Effects) (analyzer : Analyzer) :
    (recordChoiceExecutions choice merged completing analyzer).indexed = analyzer.indexed := by
  have hbranch : ∀ (names : List NodeName) (branch : Effects) (analyzer : Analyzer),
      (names.foldl (fun analyzer name =>
        { analyzer with
          choiceExecutionCorrelations := OrdMap.alter name []
            (fun known => known ++ [⟨choice, branch.completion⟩])
            analyzer.choiceExecutionCorrelations }) analyzer).indexed = analyzer.indexed := by
    intro names branch
    induction names with
    | nil => exact fun _ => rfl
    | cons name names ih => exact fun analyzer => ih _
  unfold recordChoiceExecutions
  induction completing generalizing analyzer with
  | nil => rfl
  | cons branch completing ih => exact (ih _).trans (hbranch _ _ _)

theorem validateChoiceNode_keeps (root : GraphNode) (group : Group)
    (branches : List (Guard × GraphNode)) (otherwise : Option GraphNode)
    {branchValidators : List Validator} {otherwiseValidator : Option Validator}
    (hbranches : ∀ validate ∈ branchValidators, KeepsIndex validate)
    (hotherwise : ∀ validate ∈ otherwiseValidator, KeepsIndex validate)
    (context : NodeValidationContext) (path : DiagnosticPath) :
    Keeps (validateChoiceNode root group branches otherwise branchValidators otherwiseValidator
      context path) := by
  have hroute : ∀ validate refinement completion, KeepsIndex validate →
      Keeps (validateRoute root group context path validate refinement completion) :=
    fun validate _ _ hvalidate => (hvalidate _).bind fun _ =>
      (restrictCompletion_keeps _ _ _ _).bind fun _ => Preserves.pure _
  have hroutes : ∀ routes : List (Validator × Bool × OutcomeRefinement × CompletionPredicate),
      (∀ route ∈ routes, KeepsIndex route.1) →
        Keeps (validateChoiceBranches root group context path routes) := by
    intro routes
    induction routes with
    | nil => exact fun _ => Preserves.pure _
    | cons route routes ih =>
      intro hall
      rw [List.forall_mem_cons] at hall
      unfold validateChoiceBranches
      exact .ite (ih hall.2) ((hroute _ _ _ hall.1).bind fun _ => (ih hall.2).bind fun _ =>
        Preserves.pure _)
  have hfallback : ∀ control, Keeps (validateOtherwise root group context path control
      otherwiseValidator) := by
    intro control
    unfold validateOtherwise
    split
    · exact (hroute _ _ _ (hotherwise _ rfl)).bind fun _ => Preserves.pure _
    · exact .ite (Preserves.pure _) (Preserves.pure _)
  have hcorrelate : ∀ alternatives merged,
      Keeps (correlateChoiceWrites group.name alternatives merged) := by
    intro alternatives merged
    refine Preserves.bind (Preserves.update fun s => ?_) fun _ => .ite (Preserves.pure _) ?_
    · exact recordChoiceExecutions_indexed _ _ _ s
    · exact Preserves.bind (Preserves.update fun _ => rfl) fun _ => Preserves.pure _
  refine (validateChoice_keeps _ _ _ _ _ _).bind fun control => ?_
  refine Preserves.bind (Preserves.update fun _ => rfl) fun _ => ?_
  refine Preserves.bind (hroutes _ fun route hroute => ?_) fun _ => (hfallback _).bind fun _ =>
    (hcorrelate _ _).bind fun _ => restrictPromotions_keeps _ _ _ _ _
  exact hbranches _ (List.of_mem_zip hroute).1

theorem validateLoop_keeps (graph : GraphSpec) (group : Group) (untilGuard : Option Guard)
    (maxIterationsInput : Option FieldPath) {body : Validator} (hbody : KeepsIndex body)
    (context : NodeValidationContext) (path : DiagnosticPath) :
    Keeps (validateLoop graph group untilGuard maxIterationsInput body context path) := by
  have hselectors : ∀ (effects : Effects) (path : DiagnosticPath) selectors,
      Keeps (validateExitSelectors group effects path selectors) := by
    intro effects path selectors
    induction selectors with
    | nil => exact Preserves.pure _
    | cons selector selectors ih =>
      exact Preserves.read.bind fun _ => (emitIf_keeps _ _ _ _ _).bind fun _ => ih
  have hexit : ∀ effects, Keeps (validateLoopExit graph.root group untilGuard context effects
      path) := by
    intro effects
    cases untilGuard with
    | none => exact Preserves.pure _
    | some exit =>
      exact (validateGuard_keeps _ _ _ _ _).bind fun _ => (hselectors _ _ _).bind fun _ =>
        .ite ((guardHasSatisfyingAssignment_keeps _ _ _).bind fun _ => emitIf_keeps _ _ _ _ _)
          (Preserves.pure _)
  exact (emitIf_keeps _ _ _ _ _).bind fun _ => (hbody _).bind fun _ => (hexit _).bind fun _ =>
    restrictPromotions_keeps _ _ _ _ _

theorem validateJoin_keeps (root : GraphNode) (group : Group) (branches : List GraphNode)
    (join : Join) (incoming : Flow) (path : DiagnosticPath) :
    Keeps (validateJoin root group branches join incoming path) := by
  cases join with
  | first condition =>
    refine Preserves.bind (Preserves.update fun s => ?_) fun _ =>
      (validateGuard_keeps _ _ _ _ _).bind fun _ => Preserves.pure _
    exact foldl_addDependencies_indexed (fun _ => group.name)
      (fun selector : ControlSelector => [selector.name]) _ s
  | quorum count => exact emitIf_keeps _ _ _ _ _
  | all => exact Preserves.pure _
  | any => exact Preserves.pure _

theorem validateParallelWrites_keeps (group : Group) (names : List NodeName) (join : Join)
    (branches : List Effects) (path : DiagnosticPath) :
    Keeps (validateParallelWrites group names join branches path) := by
  have hincompatible : ∀ (report : Analysis Unit) (types : List PayloadType), Keeps report →
      Keeps (reportIncompatible report types) := by
    intro report types hreport
    induction types with
    | nil => exact Preserves.pure _
    | cons type types ih =>
      exact (Preserves.forEach fun _ _ => .ite (Preserves.pure _) hreport).bind fun _ => ih
  have htypes : ∀ paths index,
      Keeps (validateParallelPromotionTypes group branches path index paths) := by
    intro paths
    induction paths with
    | nil => exact fun _ => Preserves.pure _
    | cons promoted rest ih =>
      exact fun _ => (hincompatible _ _ (emitDiagnostic_keeps _ _ _ _)).bind fun _ => ih _
  have hconflicts : ∀ branches, Keeps (validateParallelWriteConflicts path branches) := by
    intro branches
    induction branches with
    | nil => exact Preserves.pure _
    | cons branch branches ih =>
      exact (Preserves.forEach fun _ _ => .forEach fun _ _ => emitDiagnostic_keeps _ _ _ _).bind
        fun _ => ih
  refine (htypes _ _).bind fun _ => ?_
  cases join with
  | all => exact hconflicts _
  | any | quorum | first => exact Preserves.pure _

theorem mergeParallel_keeps (root : GraphNode) (name : NodeName) (join : Join)
    (branches : List Effects) (incoming : Flow) (path : DiagnosticPath) :
    Keeps (mergeParallel root name join branches incoming path) := by
  have hcounted : Keeps (mergeCounted root name join branches path) := by
    refine .ite (Preserves.pure _) (Preserves.bind (Preserves.update fun _ => rfl) fun _ => ?_)
    refine (assignmentsForCompletionPredicates_keeps _ _ _).bind fun assignments => ?_
    cases assignments with
    | none => exact Preserves.pure _
    | some assignments => exact Preserves.pure _
  cases join with
  | first condition =>
    refine Preserves.bind (Preserves.update fun _ => rfl) fun _ => ?_
    refine (assignmentsForCompletionPredicates_keeps _ _ _).bind fun assignments => ?_
    cases assignments with
    | none => exact Preserves.pure _
    | some assignments => exact Preserves.pure _
  | all | any | quorum => exact hcounted

theorem validatePar_keeps (root : GraphNode) (group : Group) (branches : List GraphNode)
    (join : Join) {validators : List Validator}
    (hvalidators : ∀ validate ∈ validators, KeepsIndex validate) (context : NodeValidationContext)
    (path : DiagnosticPath) :
    Keeps (validatePar root group branches join validators context path) :=
  (validateJoin_keeps _ _ _ _ _ _).bind fun _ =>
    (Preserves.forEach fun validate hvalidate => hvalidators validate hvalidate _).bind fun _ =>
      (validateParallelWrites_keeps _ _ _ _ _).bind fun _ =>
        (mergeParallel_keeps _ _ _ _ _ _).bind fun _ =>
          (restrictPromotions_keeps _ _ _ _ _).bind fun _ => Preserves.pure _

/-! ## Maps and the tree -/

mutual

theorem collectMapNodeExecution_indexed (owner : NodeName) :
    ∀ (node : GraphNode) (identity : NodeIdentity) (presence : CompletionPredicate)
      (analyzer : Analyzer),
      (collectMapNodeExecution owner node identity presence analyzer).indexed = analyzer.indexed
  | .step _, _, _, _ => rfl
  | .verifier _, _, _, _ => rfl
  | .seq _ children, _, _, _ => collectSeqExecution_indexed owner children _ _ _ _
  | .choice _ branches otherwise, _, _, _ =>
    (collectOtherwiseExecution_indexed owner otherwise _ _ _).trans
      (collectRouteExecution_indexed owner branches _ _ _ _ _)
  | .par _ branches join, identity, presence, analyzer => by
    rw [collectMapNodeExecution]
    split
    · exact collectBranchExecution_indexed owner branches _ _ _ _
    · rfl
  | .loop _ body _ _ _, _, _, _ => collectMapNodeExecution_indexed owner body _ _ _
  | .map _ _ _ _, _, _, _ => rfl
  | .succeed _, _, _, _ => rfl
  | .fail _, _, _, _ => rfl

theorem collectSeqExecution_indexed (owner : NodeName) :
    ∀ (children : List GraphNode) (identity : NodeIdentity) (index : Nat)
      (presence : CompletionPredicate) (analyzer : Analyzer),
      (collectSeqExecution owner children identity index presence analyzer).indexed =
        analyzer.indexed
  | [], _, _, _, _ => rfl
  | child :: children, _, _, _, _ =>
    (collectSeqExecution_indexed owner children _ _ _ _).trans
      (collectMapNodeExecution_indexed owner child _ _ _)

theorem collectRouteExecution_indexed (owner : NodeName) :
    ∀ (branches : List (Guard × GraphNode)) (presences : List CompletionPredicate)
      (identity : NodeIdentity) (index : Nat) (presence : CompletionPredicate)
      (analyzer : Analyzer),
      (collectRouteExecution owner branches presences identity index presence analyzer).indexed =
        analyzer.indexed
  | [], [], _, _, _, _ => rfl
  | [], _ :: _, _, _, _, _ => rfl
  | _ :: _, [], _, _, _, _ => rfl
  | (_, node) :: branches, _ :: presences, _, _, _, _ =>
    (collectRouteExecution_indexed owner branches presences _ _ _ _).trans
      (collectMapNodeExecution_indexed owner node _ _ _)

theorem collectOtherwiseExecution_indexed (owner : NodeName) :
    ∀ (otherwise : Option GraphNode) (identity : NodeIdentity) (presence : CompletionPredicate)
      (analyzer : Analyzer),
      (collectOtherwiseExecution owner otherwise identity presence analyzer).indexed =
        analyzer.indexed
  | none, _, _, _ => rfl
  | some node, _, _, _ => collectMapNodeExecution_indexed owner node _ _ _

theorem collectBranchExecution_indexed (owner : NodeName) :
    ∀ (branches : List GraphNode) (identity : NodeIdentity) (index : Nat)
      (presence : CompletionPredicate) (analyzer : Analyzer),
      (collectBranchExecution owner branches identity index presence analyzer).indexed =
        analyzer.indexed
  | [], _, _, _, _ => rfl
  | branch :: branches, _, _, _, _ =>
    (collectBranchExecution_indexed owner branches _ _ _ _).trans
      (collectMapNodeExecution_indexed owner branch _ _ _)

end

theorem validateMap_keeps (group : Group) (body : GraphNode) (overItems : DataSelector)
    (maxItems : PositiveInteger) (identity : NodeIdentity) {validate : Validator}
    (hvalidate : KeepsIndex validate) (context : NodeValidationContext) (path : DiagnosticPath) :
    Keeps (validateMap group body overItems maxItems identity validate context path) := by
  have htargets : ∀ paths index targets, Keeps (mapIndexTargets group context path index paths
      targets) := by
    intro paths
    induction paths with
    | nil => exact fun _ _ => Preserves.pure _
    | cons promoted rest ih =>
      rintro index ⟨inherited, own⟩
      unfold mapIndexTargets
      split
      · exact ih _ _
      · exact (emitDiagnostic_keeps _ _ _ _).bind fun _ => ih _ _
      · exact ih _ _
  have hselector : Keeps (validateMapSelector group overItems context path) := by
    refine (validateDataSelector_keeps _ _ _).bind fun selected => ?_
    split
    · exact Preserves.pure _
    · exact (emitDiagnostic_keeps _ _ _ _).bind fun _ => Preserves.pure _
    · exact Preserves.pure _
  refine (emitIf_keeps _ _ _ _ _).bind fun _ => (htargets _ _ _).bind fun targets => ?_
  refine hselector.bind fun _ => (hvalidate _).bind fun _ => ?_
  refine Preserves.bind (Preserves.update fun s => ?_) fun _ => restrictPromotions_keeps _ _ _ _ _
  exact collectMapNodeExecution_indexed _ _ _ _ s

theorem validateAs_keeps (identity : NodeIdentity) (node : GraphNode)
    {validate : NodeValidationContext → DiagnosticPath → Analysis Effects}
    (h : ∀ context path, Keeps (validate context path)) :
    KeepsIndex (validateAs identity node validate) := fun _ =>
  Preserves.read.bind fun _ => (emitIf_keeps _ _ _ _ _).bind fun _ => (h _ _).bind fun _ =>
    Preserves.bind (Preserves.update fun _ => rfl) fun _ => Preserves.pure _

mutual

/-- **Validation leaves the index alone.** -/
theorem validateNode_keeps (graph : GraphSpec) :
    ∀ (node : GraphNode) (identity : NodeIdentity), KeepsIndex (validateNode graph identity node)
  | .step step, identity => validateAs_keeps identity (.step step) fun _ _ =>
    (validateInputBindings_keeps _ _ _ _ _ _).bind fun _ =>
      (validateWriteBindings_keeps _ _ _ _ _ _ _ _).bind fun _ => Preserves.pure _
  | .verifier verifier, identity => validateAs_keeps identity (.verifier verifier) fun _ _ =>
    (validateInputBindings_keeps _ _ _ _ _ _).bind fun _ =>
      (validateWriteBindings_keeps _ _ _ _ _ _ _ _).bind fun _ => Preserves.pure _
  | .seq group children, identity => validateAs_keeps identity (.seq group children)
    (validateSeq_keeps _ _ (validateNodes_keeps graph children identity 0))
  | .choice group branches otherwise, identity =>
    validateAs_keeps identity (.choice group branches otherwise)
      (validateChoiceNode_keeps _ _ _ _ (validateBranches_keeps graph branches identity 0)
        (validateFallback_keeps graph otherwise _))
  | .par group branches join, identity => validateAs_keeps identity (.par group branches join)
    (validatePar_keeps _ _ _ _ (validateNodes_keeps graph branches identity 0))
  | .loop group body untilGuard maxIterations maxIterationsInput, identity =>
    validateAs_keeps identity (.loop group body untilGuard maxIterations maxIterationsInput)
      (validateLoop_keeps _ _ _ _ (validateNode_keeps graph body _))
  | .map group body overItems maxItems, identity =>
    validateAs_keeps identity (.map group body overItems maxItems)
      (validateMap_keeps _ _ _ _ _ (validateNode_keeps graph body _))
  | .succeed terminal, identity => validateAs_keeps identity (.succeed terminal) fun _ _ =>
    (validateInputBindings_keeps _ _ _ _ _ _).bind fun _ => Preserves.pure _
  | .fail terminal, identity => validateAs_keeps identity (.fail terminal) fun _ _ =>
    Preserves.pure _

theorem validateNodes_keeps (graph : GraphSpec) :
    ∀ (nodes : List GraphNode) (identity : NodeIdentity) (index : Nat),
      ∀ validate ∈ validateNodes graph identity index nodes, KeepsIndex validate
  | [], _, _, _, h => (by cases h)
  | node :: nodes, identity, index, validate, h =>
    (List.mem_cons.mp h).elim (fun heq => heq ▸ validateNode_keeps graph node _)
      (validateNodes_keeps graph nodes identity (index + 1) validate)

theorem validateBranches_keeps (graph : GraphSpec) :
    ∀ (branches : List (Guard × GraphNode)) (identity : NodeIdentity) (index : Nat),
      ∀ validate ∈ validateBranches graph identity index branches, KeepsIndex validate
  | [], _, _, _, h => (by cases h)
  | (_, node) :: branches, identity, index, validate, h =>
    (List.mem_cons.mp h).elim (fun heq => heq ▸ validateNode_keeps graph node _)
      (validateBranches_keeps graph branches identity (index + 1) validate)

theorem validateFallback_keeps (graph : GraphSpec) :
    ∀ (otherwise : Option GraphNode) (identity : NodeIdentity),
      ∀ validate ∈ validateFallback graph identity otherwise, KeepsIndex validate
  | none, _, _, h => (by cases h)
  | some node, identity, _, h =>
    Option.some.inj h ▸ validateNode_keeps graph node identity

end

/-! ## Coverage, order and fold -/

mutual

theorem terminalFlow_keeps : ∀ (node : GraphNode) (identity : NodeIdentity),
    Keeps (terminalFlow node identity)
  | .seq group children, identity => terminalSequence_keeps group.name children identity 0 true
  | .choice _ branches otherwise, identity =>
    Preserves.read.bind fun _ => (terminalRoutes_keeps _ branches identity 0).bind fun _ =>
      terminalFallback_keeps _ otherwise _
  | .par _ branches _, identity => terminalParallel_keeps branches identity 0
  | .loop _ body _ _ _, _ => terminalFlow_keeps body _
  | .map _ body _ _, _ => terminalFlow_keeps body _
  | .step _, _ => Preserves.pure _
  | .verifier _, _ => Preserves.pure _
  | .succeed _, _ => Preserves.pure _
  | .fail _, _ => Preserves.pure _

theorem terminalSequence_keeps (group : NodeName) :
    ∀ (children : List GraphNode) (identity : NodeIdentity) (index : Nat) (reachable : Bool),
      Keeps (terminalSequence group children identity index reachable)
  | [], _, _, _ => Preserves.pure _
  | child :: children, identity, _, _ =>
    Preserves.read.bind fun _ => (emitIf_keeps _ _ _ _ _).bind fun _ =>
      (terminalFlow_keeps child _).bind fun _ =>
        terminalSequence_keeps group children identity _ _

theorem terminalRoutes_keeps (reachability : Option ChoiceReachability) :
    ∀ (branches : List (Guard × GraphNode)) (identity : NodeIdentity) (index : Nat),
      Keeps (terminalRoutes reachability branches identity index)
  | [], _, _ => Preserves.pure _
  | (_, node) :: branches, identity, _ => by
    rw [terminalRoutes]
    exact .ite ((terminalFlow_keeps node _).bind fun _ =>
        terminalRoutes_keeps reachability branches identity _)
      ((Preserves.pure _).bind fun _ => terminalRoutes_keeps reachability branches identity _)

theorem terminalFallback_keeps (reachable : Bool) :
    ∀ (otherwise : Option GraphNode) (identity : NodeIdentity),
      Keeps (terminalFallback reachable otherwise identity)
  | none, _ => Preserves.pure _
  | some node, identity => .ite (terminalFlow_keeps node identity) (Preserves.pure _)

theorem terminalParallel_keeps :
    ∀ (branches : List GraphNode) (identity : NodeIdentity) (index : Nat),
      Keeps (terminalParallel branches identity index)
  | [], _, _ => Preserves.pure _
  | branch :: branches, identity, _ =>
    (terminalFlow_keeps branch _).bind fun _ => terminalParallel_keeps branches identity _

end

theorem validateTerminalCoverage_keeps (root : GraphNode) :
    Keeps (validateTerminalCoverage root) :=
  (terminalFlow_keeps root []).bind fun _ => Preserves.read.bind fun _ =>
    emitIf_keeps _ _ _ _ _

theorem orderReferences_keeps (analyzer : Analyzer) (fuel : Nat) (remaining order : List NodeName) :
    Keeps (orderReferences analyzer fuel remaining order) := by
  induction fuel generalizing remaining order with
  | zero => exact Preserves.pure _
  | succ fuel ih =>
    refine .ite (Preserves.pure _) ?_
    cases nextReferenceNode analyzer remaining order with
    | none => exact (emitDiagnostic_keeps _ _ _ _).bind fun _ => Preserves.pure _
    | some next => exact ih _ _

theorem validateReferenceNames_keeps (analyzer : Analyzer) :
    Keeps (validateReferenceNames analyzer) :=
  (Preserves.forEach fun _ _ => .forEach fun _ _ => emitIf_keeps _ _ _ _ _).bind fun _ =>
    Preserves.pure _

theorem referenceTopologicalOrder_keeps : Keeps referenceTopologicalOrder :=
  Preserves.read.bind fun _ => (validateReferenceNames_keeps _).bind fun _ =>
    orderReferences_keeps _ _ _ _

theorem ceiling_keeps (path : DiagnosticPath) (field message : String) :
    Keeps (ceiling path field message) := emitDiagnostic_keeps _ _ _ _

theorem checkedSum_keeps (limit : FoldLimit) (total : Nat) (values : List Nat) :
    Keeps (checkedSum limit total values) := by
  induction values generalizing total with
  | nil => exact Preserves.pure _
  | cons value values ih =>
    exact .ite (ih _) ((ceiling_keeps _ _ _).bind fun _ => Preserves.pure _)

theorem checkedProduct_keeps (limit : FoldLimit) (left right : Nat) :
    Keeps (checkedProduct limit left right) :=
  .ite (Preserves.pure _) ((ceiling_keeps _ _ _).bind fun _ => Preserves.pure _)

/-- A step that may fail, followed by one that ends without its value. -/
theorem bindSome_keeps {α β : Type} {x : Analysis (Option α)} {f : Option α → Analysis (Option β)}
    (hx : Keeps x) (hnone : f none = pure none) (hsome : ∀ a, Keeps (f (some a))) :
    Keeps (x >>= f) :=
  hx.bind fun value => by
    cases value with
    | none => exact hnone ▸ Preserves.pure _
    | some a => exact hsome a

theorem checkFoldLimits_keeps (path : DiagnosticPath) (fold : Fold) :
    Keeps (checkFoldLimits path fold) := by
  have hceiling : ∀ field message, Keeps (do
      ceiling path field message
      pure (none : Option Fold)) := fun _ _ =>
    (ceiling_keeps _ _ _).bind fun _ => Preserves.pure _
  exact .ite (hceiling _ _) (.ite (hceiling _ _) (.ite (hceiling _ _) (Preserves.pure _)))

theorem checkFold_keeps (path : DiagnosticPath) (fold : Option Fold) :
    Keeps (checkFold path fold) := by
  cases fold with
  | none => exact Preserves.pure _
  | some fold => exact checkFoldLimits_keeps path fold

theorem foldLoop_keeps (path : DiagnosticPath) (maxIterations : Nat) (body : Fold) :
    Keeps (foldLoop path maxIterations body) :=
  .ite ((ceiling_keeps _ _ _).bind fun _ => Preserves.pure _)
    (bindSome_keeps (checkedProduct_keeps _ _ _) rfl fun _ =>
      (checkedProduct_keeps _ _ _).bind fun _ => Preserves.pure _)

theorem foldMap_keeps (path : DiagnosticPath) (maxItems : Nat) (body : Fold) :
    Keeps (foldMap path maxItems body) :=
  bindSome_keeps (checkedProduct_keeps _ _ _) rfl fun _ =>
    bindSome_keeps (checkedProduct_keeps _ _ _) rfl fun _ =>
      (checkedProduct_keeps _ _ _).bind fun _ => Preserves.pure _

theorem foldSeq_keeps (path : DiagnosticPath) (children : List Fold) :
    Keeps (foldSeq path children) :=
  bindSome_keeps (checkedSum_keeps _ _ _) rfl fun _ =>
    (checkedSum_keeps _ _ _).bind fun _ => Preserves.pure _

theorem foldPar_keeps (path : DiagnosticPath) (children : List Fold) :
    Keeps (foldPar path children) :=
  bindSome_keeps (checkedSum_keeps _ _ _) rfl fun _ =>
    bindSome_keeps (checkedSum_keeps _ _ _) rfl fun _ =>
      (checkedSum_keeps _ _ _).bind fun _ => Preserves.pure _

mutual

theorem foldNode_keeps : ∀ node : GraphNode, Keeps (foldNode node)
  | .step _ => Preserves.read.bind fun _ => checkFoldLimits_keeps _ _
  | .verifier _ => Preserves.read.bind fun _ => checkFoldLimits_keeps _ _
  | .seq _ children => Preserves.read.bind fun _ => (foldNodes_keeps children).bind fun _ =>
    (foldSeq_keeps _ _).bind fun _ => checkFold_keeps _ _
  | .choice _ branches otherwise =>
    Preserves.read.bind fun _ => (foldBranches_keeps branches).bind fun _ =>
      bindSome_keeps (foldOtherwise_keeps otherwise) rfl fun _ => checkFoldLimits_keeps _ _
  | .par _ branches _ => Preserves.read.bind fun _ => (foldNodes_keeps branches).bind fun _ =>
    (foldPar_keeps _ _).bind fun _ => checkFold_keeps _ _
  | .loop _ body _ _ _ =>
    Preserves.read.bind fun _ => bindSome_keeps (foldNode_keeps body) rfl fun _ =>
      (foldLoop_keeps _ _ _).bind fun _ => checkFold_keeps _ _
  | .map _ body _ _ =>
    Preserves.read.bind fun _ => bindSome_keeps (foldNode_keeps body) rfl fun _ =>
      (foldMap_keeps _ _ _).bind fun _ => checkFold_keeps _ _
  | .succeed _ => Preserves.read.bind fun _ => checkFoldLimits_keeps _ _
  | .fail _ => Preserves.read.bind fun _ => checkFoldLimits_keeps _ _

theorem foldNodes_keeps : ∀ nodes : List GraphNode, Keeps (foldNodes nodes)
  | [] => Preserves.pure _
  | node :: nodes => (foldNode_keeps node).bind fun _ => (foldNodes_keeps nodes).bind fun _ =>
    Preserves.pure _

theorem foldBranches_keeps : ∀ branches : List (Guard × GraphNode), Keeps (foldBranches branches)
  | [] => Preserves.pure _
  | (_, node) :: branches => (foldNode_keeps node).bind fun _ =>
    (foldBranches_keeps branches).bind fun _ => Preserves.pure _

theorem foldOtherwise_keeps : ∀ otherwise : Option GraphNode, Keeps (foldOtherwise otherwise)
  | none => Preserves.pure _
  | some node => (foldNode_keeps node).bind fun _ => Preserves.pure _

end

end Zeroshot
