import Zeroshot.Verifier.Nodes

set_option autoImplicit false

/-!
# Coverage, order and bounds

The passes after validation: every normal path must end in a terminal, references must be acyclic,
and the structural fold bounds how often workers run (`executions`), how many run at once
(`concurrency`) and how often loop bodies are entered (`loopEntries`). A sequence takes the largest
concurrency of its children, a parallel group their sum, and maps and loops multiply.
-/

namespace Zeroshot

open Reporting

/-! ## Terminal coverage -/

mutual

/-- `terminal_flow`. -/
def terminalFlow (node : GraphNode) (identity : NodeIdentity) : Analysis Unit :=
  match node with
  | .seq group children => terminalSequence group.name children identity 0 true
  | .choice group branches otherwise => do
    let analyzer ← read
    let reachability := OrdMap.get? analyzer.choiceReachability group.name
    terminalRoutes reachability branches identity 0
    terminalFallback (reachability.all ChoiceReachability.otherwiseReachable) otherwise
      (identity ++ [branches.length])
  | .par _ branches _ => terminalParallel branches identity 0
  | .loop _ body _ _ _ => terminalFlow body (identity ++ [0])
  | .map _ body _ _ => terminalFlow body (identity ++ [0])
  | .step _ => pure ()
  | .verifier _ => pure ()
  | .succeed _ => pure ()
  | .fail _ => pure ()

/-- `terminal_sequence`, from the child at `index` on. -/
def terminalSequence (group : NodeName) (children : List GraphNode) (identity : NodeIdentity)
    (index : Nat) (reachable : Bool) : Analysis Unit :=
  match children with
  | [] => pure ()
  | child :: children => do
    let analyzer ← read
    emitIf (!reachable) .reachability "node is unreachable after an unconditional terminal"
      (analyzer.nodePath child.name) [child.name, group]
    terminalFlow child (identity ++ [index])
    terminalSequence group children identity (index + 1)
      (reachable && analyzer.mayFallThrough (identity ++ [index]))

/-- The branches of `terminal_choice`. -/
def terminalRoutes (reachability : Option ChoiceReachability)
    (branches : List (Guard × GraphNode)) (identity : NodeIdentity) (index : Nat) :
    Analysis Unit :=
  match branches with
  | [] => pure ()
  | (_, node) :: branches => do
    if reachability.all fun control => control.branchReachable index then
      terminalFlow node (identity ++ [index])
    else pure ()
    terminalRoutes reachability branches identity (index + 1)

/-- The fallback of `terminal_choice`. -/
def terminalFallback (reachable : Bool) (otherwise : Option GraphNode) (identity : NodeIdentity) :
    Analysis Unit :=
  match otherwise with
  | none => pure ()
  | some node => if reachable then terminalFlow node identity else pure ()

/-- `terminal_parallel`. -/
def terminalParallel (branches : List GraphNode) (identity : NodeIdentity) (index : Nat) :
    Analysis Unit :=
  match branches with
  | [] => pure ()
  | branch :: branches => do
    terminalFlow branch (identity ++ [index])
    terminalParallel branches identity (index + 1)

end

/-- `validate_terminal_coverage`. -/
def validateTerminalCoverage (root : GraphNode) : Analysis Unit := do
  terminalFlow root []
  let analyzer ← read
  emitIf (analyzer.mayFallThrough []) .reachability
    "normal-success path falls through without explicit succeed or fail terminal" rootPath
    [root.name]

/-! ## Reference order -/

/-- `validate_reference_names`. -/
def validateReferenceNames (analyzer : Analyzer) : Analysis Unit := do
  let _ ← forEach (fun (entry : NodeName × OrdSet NodeName) =>
    forEach (fun dependency =>
      emitIf (!OrdMap.contains analyzer.nodes dependency) .undefinedRead
        ("reference names unknown node " ++ dependency.asStr) (analyzer.nodePath entry.1)
        [dependency]) entry.2) analyzer.dependencies
  pure ()

/-- The first of the nodes with the least ordinal. -/
def leastOrdinal (analyzer : Analyzer) : List NodeName → Option NodeName
  | [] => none
  | node :: nodes =>
    match leastOrdinal analyzer nodes with
    | none => some node
    | some best =>
      let ordinal := fun name =>
        ((OrdMap.get? analyzer.nodes name).map NodeInfo.ordinal).getD u64Limit
      if ordinal node ≤ ordinal best then some node else some best

/-- `next_reference_node`. -/
def nextReferenceNode (analyzer : Analyzer) (remaining order : List NodeName) : Option NodeName :=
  leastOrdinal analyzer (remaining.filter fun node =>
    (OrdMap.get? analyzer.dependencies node).all fun dependencies =>
      dependencies.all fun dependency => dependency == node || order.contains dependency)

/-- `emit_reference_cycle`. -/
def emitReferenceCycle (analyzer : Analyzer) (remaining : List NodeName) : Analysis Unit :=
  emitDiagnostic .cyclicReference "node-output/control references contain a cycle"
    ((remaining.head?.map analyzer.nodePath).getD rootPath) remaining

/-- The loop of `reference_topological_order`; every round takes one node. -/
def orderReferences (analyzer : Analyzer) :
    Nat → List NodeName → List NodeName → Analysis (List NodeName)
  | 0, _, order => pure order
  | fuel + 1, remaining, order =>
    if remaining.isEmpty then pure order
    else
      match nextReferenceNode analyzer remaining order with
      | none => do
        emitReferenceCycle analyzer remaining
        pure order
      | some next =>
        orderReferences analyzer fuel (remaining.filter fun node => node != next) (order ++ [next])

/-- `reference_topological_order`. -/
def referenceTopologicalOrder : Analysis (List NodeName) := do
  let analyzer ← read
  validateReferenceNames analyzer
  let known := OrdMap.keys analyzer.nodes
  orderReferences analyzer known.length known []

/-! ## The fold -/

structure Fold where
  executions : Nat := 0
  concurrency : Nat := 0
  loopEntries : Nat := 0
  deriving DecidableEq, Repr

/-- `ceiling`. -/
def ceiling (path : DiagnosticPath) (field message : String) : Analysis Unit :=
  emitDiagnostic .ceilingExceeded message (withField path field) []

/-- `FoldLimitContext`. -/
structure FoldLimit where
  ceiling : Nat
  path : DiagnosticPath
  field : String
  label : String

def FoldLimit.message (limit : FoldLimit) : String :=
  limit.label ++ " exceed " ++ toString limit.ceiling

/-- `checked_sum`. The ceilings are far below the width of the integers, so a sum that overflows
exceeds its ceiling. -/
def checkedSum (limit : FoldLimit) : Nat → List Nat → Analysis (Option Nat)
  | total, [] => pure (some total)
  | total, value :: values =>
    if total + value ≤ limit.ceiling then checkedSum limit (total + value) values
    else do
      ceiling limit.path limit.field limit.message
      pure none

/-- `checked_product`. -/
def checkedProduct (limit : FoldLimit) (left right : Nat) : Analysis (Option Nat) :=
  if left * right ≤ limit.ceiling then pure (some (left * right))
  else do
    ceiling limit.path limit.field limit.message
    pure none

/-- The three ceilings of a group, at the field that scales it. -/
def executionLimit (path : DiagnosticPath) (field : String) : FoldLimit :=
  ⟨maxNodeExecutions, path, field, "node executions"⟩

def concurrencyLimit (path : DiagnosticPath) (field : String) : FoldLimit :=
  ⟨maxPeakConcurrency, path, field, "peak concurrency"⟩

def loopEntryLimit (path : DiagnosticPath) (field : String) : FoldLimit :=
  ⟨maxLoopEntries, path, field, "loop entries"⟩

/-- The largest of the values, zero when there is none. -/
def largest (values : List Nat) : Nat := values.foldl max 0

/-- `fold_seq`, from the folds of the children. -/
def foldSeq (path : DiagnosticPath) (children : List Fold) : Analysis (Option Fold) := do
  match ← checkedSum (executionLimit path "children") 0 (children.map Fold.executions) with
  | none => pure none
  | some executions =>
    let entries ← checkedSum (loopEntryLimit path "children") 0 (children.map Fold.loopEntries)
    pure (entries.map fun loopEntries =>
      ⟨executions, largest (children.map Fold.concurrency), loopEntries⟩)

/-- `fold_choice`, from the folds of the branches. -/
def foldChoice (children : List Fold) : Fold :=
  ⟨largest (children.map Fold.executions), largest (children.map Fold.concurrency),
    largest (children.map Fold.loopEntries)⟩

/-- `fold_par`, from the folds of the branches. -/
def foldPar (path : DiagnosticPath) (children : List Fold) : Analysis (Option Fold) := do
  match ← checkedSum (executionLimit path "branches") 0 (children.map Fold.executions) with
  | none => pure none
  | some executions =>
    match ← checkedSum (concurrencyLimit path "branches") 0 (children.map Fold.concurrency) with
    | none => pure none
    | some concurrency =>
      let entries ← checkedSum (loopEntryLimit path "branches") 0 (children.map Fold.loopEntries)
      pure (entries.map fun loopEntries => ⟨executions, concurrency, loopEntries⟩)

/-- `fold_map`, from the fold of the body. -/
def foldMap (path : DiagnosticPath) (maxItems : Nat) (body : Fold) : Analysis (Option Fold) := do
  match ← checkedProduct (executionLimit path "maxItems") maxItems body.executions with
  | none => pure none
  | some executions =>
    match ← checkedProduct (concurrencyLimit path "maxItems") maxItems body.concurrency with
    | none => pure none
    | some concurrency =>
      let entries ← checkedProduct (loopEntryLimit path "maxItems") maxItems body.loopEntries
      pure (entries.map fun loopEntries => ⟨executions, concurrency, loopEntries⟩)

/-- `fold_loop`, from the fold of the body. -/
def foldLoop (path : DiagnosticPath) (maxIterations : Nat) (body : Fold) :
    Analysis (Option Fold) :=
  if u64Limit ≤ body.loopEntries + 1 then do
    ceiling path "maxIterations" "loop-entry arithmetic overflow"
    pure none
  else do
    match ← checkedProduct (executionLimit path "maxIterations") maxIterations body.executions with
    | none => pure none
    | some executions =>
      let entries ← checkedProduct (loopEntryLimit path "maxIterations") maxIterations
        (body.loopEntries + 1)
      pure (entries.map fun loopEntries => ⟨executions, body.concurrency, loopEntries⟩)

/-- `check_fold_limits`. -/
def checkFoldLimits (path : DiagnosticPath) (fold : Fold) : Analysis (Option Fold) :=
  if fold.executions > maxNodeExecutions then do
    ceiling path "kind" "node executions exceed full-v1 ceiling"
    pure none
  else if fold.concurrency > maxPeakConcurrency then do
    ceiling path "kind" "peak concurrency exceeds full-v1 ceiling"
    pure none
  else if fold.loopEntries > maxLoopEntries then do
    ceiling path "kind" "loop entries exceed full-v1 ceiling"
    pure none
  else pure (some fold)

/-- `check_fold_limits` on a fold that may be missing. -/
def checkFold (path : DiagnosticPath) : Option Fold → Analysis (Option Fold)
  | none => pure none
  | some fold => checkFoldLimits path fold

mutual

/-- `fold_node` and `fold_group_node`. -/
def foldNode (node : GraphNode) : Analysis (Option Fold) :=
  match node with
  | .step step => do
    let analyzer ← read
    checkFoldLimits (analyzer.nodePath step.name) ⟨1, 1, 0⟩
  | .verifier verifier => do
    let analyzer ← read
    checkFoldLimits (analyzer.nodePath verifier.name) ⟨1, 1, 0⟩
  | .seq group children => do
    let analyzer ← read
    let path := analyzer.nodePath group.name
    let folds ← foldNodes children
    checkFold path (← foldSeq path folds)
  | .choice group branches otherwise => do
    let analyzer ← read
    let path := analyzer.nodePath group.name
    let folds ← foldBranches branches
    match ← foldOtherwise otherwise with
    | none => pure none
    | some fallback => checkFoldLimits path (foldChoice (folds ++ fallback))
  | .par group branches _ => do
    let analyzer ← read
    let path := analyzer.nodePath group.name
    let folds ← foldNodes branches
    checkFold path (← foldPar path folds)
  | .loop group body _ maxIterations _ => do
    let analyzer ← read
    let path := analyzer.nodePath group.name
    match ← foldNode body with
    | none => pure none
    | some fold => checkFold path (← foldLoop path maxIterations.get fold)
  | .map group body _ maxItems => do
    let analyzer ← read
    let path := analyzer.nodePath group.name
    match ← foldNode body with
    | none => pure none
    | some fold => checkFold path (← foldMap path maxItems.get fold)
  | .succeed terminal => do
    let analyzer ← read
    checkFoldLimits (analyzer.nodePath terminal.name) {}
  | .fail terminal => do
    let analyzer ← read
    checkFoldLimits (analyzer.nodePath terminal.name) {}

/-- The folds of the nodes that have one. -/
def foldNodes (nodes : List GraphNode) : Analysis (List Fold) :=
  match nodes with
  | [] => pure []
  | node :: nodes => do
    let fold ← foldNode node
    let folds ← foldNodes nodes
    pure (fold.toList ++ folds)

/-- The folds of the branches that have one. -/
def foldBranches (branches : List (Guard × GraphNode)) : Analysis (List Fold) :=
  match branches with
  | [] => pure []
  | (_, node) :: branches => do
    let fold ← foldNode node
    let folds ← foldBranches branches
    pure (fold.toList ++ folds)

/-- The fold of a fallback; `none` when it has a fallback without a fold. -/
def foldOtherwise (otherwise : Option GraphNode) : Analysis (Option (List Fold)) :=
  match otherwise with
  | none => pure (some [])
  | some node => do
    let fold ← foldNode node
    pure (fold.map fun fold => [fold])

end

/-! ## Structural bounds -/

inductive TerminationWitness
  | acyclic (order : List NodeName)
  | bounded (ranking : List FieldPath) (maxIterations : PositiveInteger)
  deriving DecidableEq, Repr

structure StructuralBounds where
  termination : TerminationWitness
  maxNodeExecutions : PositiveInteger
  peakConcurrency : PositiveInteger
  attemptsPerNode : OrdMap NodeName PositiveInteger
  deriving DecidableEq, Repr

/-- `NonEmptyVec::new`. -/
def nonEmptyVec {α : Type} (values : List α) : Option (List α) :=
  if collectionLimits values then some values else none

/-- The termination witness of `build_bounds`. -/
def terminationWitness (analyzer : Analyzer) (fold : Fold) (order : List NodeName) :
    Option TerminationWitness :=
  if analyzer.loops.isEmpty then (nonEmptyVec order).map .acyclic
  else do
    let ranking ← analyzer.loops.mapM fun name =>
      (fieldName name.asStr).bind fun name => FieldPath.new [name]
    let ranking ← nonEmptyVec ranking
    let maxIterations ← PositiveInteger.new fold.loopEntries
    pure (.bounded ranking maxIterations)

/-- `build_bounds`. -/
def buildBounds (analyzer : Analyzer) (fold : Fold) (order : List NodeName) :
    Option StructuralBounds := do
  let executions ← PositiveInteger.new (max fold.executions 1)
  let concurrency ← PositiveInteger.new (max fold.concurrency 1)
  let termination ← terminationWitness analyzer fold order
  pure ⟨termination, executions, concurrency, analyzer.attempts⟩

/-! ## The analysis -/

/-- `validate_profile`. -/
def validateProfile (graph : GraphSpec) : Analysis Unit :=
  emitIf (graph.profile != .full) .invalidGraphShape
    "production full-v1 verifier accepts only openengine.graph.full/v1" [fieldSegment "profile"] []

/-- The state type the root is entered with. -/
def GraphSpec.initialState (graph : GraphSpec) : PayloadType :=
  (graph.root.state.bind graph.initialInput.materializedSubtypeOf).getD graph.initialInput

/-- The context the root is validated in. -/
def GraphSpec.rootContext (graph : GraphSpec) : NodeValidationContext :=
  { incoming := { defined := graph.initialState.requiredPathsWithTypes }
    state := graph.initialState
    item := none
    mapIndexTargets := none }

/-- The checks of `analyze`, with the reference order and the fold of the root. -/
def analyzeGraph (graph : GraphSpec) : Analysis (List NodeName × Option Fold) := do
  validateProfile graph
  indexNode graph.root.name graph.root (rootPath ++ [.node graph.root.name]) 1
  validateGlobalLimits
  let _ ← validateNode graph [] graph.root graph.rootContext
  validateTerminalCoverage graph.root
  let order ← referenceTopologicalOrder
  let fold ← foldNode graph.root
  pure (order, fold)

end Zeroshot
