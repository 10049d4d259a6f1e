import Zeroshot.Lib.Reporting
import Zeroshot.Verifier.Flow

set_option autoImplicit false

/-!
# The analyzer and its index

The analyzer's state and the first pass over the graph: every node is recorded under its name with
its location and ordinal, and the limits that need nothing but the tree are checked. A name that
was seen before is reported, so a silent index means that names are unique.

A node's identity (`NodeIdentity`) is its position in the tree, the list of child indices that
leads to it; it stands for the address the source uses.
-/

namespace Zeroshot

/-- `FULL_V1_MAX_GRAPH_NODES`. -/
def maxGraphNodes : Nat := 4096

/-- `FULL_V1_MAX_GRAPH_DEPTH`. -/
def maxGraphDepth : Nat := 64

/-- `FULL_V1_MAX_GUARD_NODES`. -/
def maxGuardNodes : Nat := 4096

/-- `FULL_V1_MAX_MAP_ITEMS`. -/
def maxMapItems : Nat := 1024

/-- `FULL_V1_MAX_ATTEMPTS_PER_NODE`. -/
def maxAttemptsPerNode : Nat := 100

/-- `FULL_V1_MAX_NODE_EXECUTIONS`. -/
def maxNodeExecutions : Nat := 65536

/-- `FULL_V1_MAX_LOOP_ENTRIES`. -/
def maxLoopEntries : Nat := 65536

/-- `FULL_V1_MAX_PEAK_CONCURRENCY`. -/
def maxPeakConcurrency : Nat := 1024

abbrev NodeIdentity := List Nat

/-- `ChoiceReachability`. -/
structure ChoiceReachability where
  branches : List Bool
  otherwiseReachable : Bool

/-- `ChoiceReachability::branch_reachable`. -/
def ChoiceReachability.branchReachable (reachability : ChoiceReachability) (index : Nat) : Bool :=
  reachability.branches[index]?.getD true

/-- `Analyzer`, less the graph and the diagnostics. -/
structure Analyzer where
  nodes : OrdMap NodeName NodeInfo := []
  authored : List NodeName := []
  dependencies : OrdMap NodeName (OrdSet NodeName) := []
  loops : List NodeName := []
  attempts : OrdMap NodeName PositiveInteger := []
  guardNodes : Nat := 0
  choiceReachability : OrdMap NodeName ChoiceReachability := []
  choiceExecutionCorrelations : OrdMap NodeName (List ExecutionCorrelation) := []
  choiceWriteConditions : OrdMap NodeName CompletionPredicate := []
  parallelJoinCorrelations : OrdMap NodeName ParallelJoinCorrelation := []
  mapExecutionCorrelations : OrdMap NodeName ExecutionCorrelation := []
  nodeCompletion : OrdMap NodeName CompletionPredicate := []
  nodeFallthrough : OrdMap NodeIdentity Bool := []

/-- A step of the analysis. -/
abbrev Analysis := Reporting Analyzer GraphDiagnostic

open Reporting

/-- `emit_diagnostic!`. -/
def emitDiagnostic (code : GraphDiagnosticCode) (message : String) (path : DiagnosticPath)
    (relatedNodes : List NodeName) : Analysis Unit :=
  report (diagnostic code message path relatedNodes)

/-- `emit_diagnostic!` under a condition. -/
def emitIf (condition : Bool) (code : GraphDiagnosticCode) (message : String)
    (path : DiagnosticPath) (relatedNodes : List NodeName) : Analysis Unit :=
  reportIf condition (diagnostic code message path relatedNodes)

namespace Analyzer

/-- `node_path`. -/
def nodePath (analyzer : Analyzer) (name : NodeName) : DiagnosticPath :=
  ((OrdMap.get? analyzer.nodes name).map NodeInfo.path).getD rootPath

/-- `may_fall_through`. -/
def mayFallThrough (analyzer : Analyzer) (identity : NodeIdentity) : Bool :=
  (OrdMap.get? analyzer.nodeFallthrough identity).getD true

/-- Record that `name` depends on the other nodes. -/
def addDependencies (name : NodeName) (others : List NodeName) (analyzer : Analyzer) : Analyzer :=
  { analyzer with
    dependencies := OrdMap.alter name [] (fun known => OrdSet.extend known others)
      analyzer.dependencies }

end Analyzer

/-! ## Indexing -/

/-- `count_guard`. -/
def countGuard (root : NodeName) (guard : Guard) (path : DiagnosticPath) : Analysis Unit := do
  let count := guard.nodeCount
  update fun analyzer =>
    (guard.selectors.filter fun selector => selector.name != root).foldl
      (fun analyzer selector => analyzer.addDependencies selector.name [])
      { analyzer with guardNodes := min (analyzer.guardNodes + count) (u64Limit - 1) }
  emitIf (maxGuardNodes < count) .ceilingExceeded
    ("guard contains more than " ++ toString maxGuardNodes ++ " nodes") path []

/-- `index_executable`. -/
def indexExecutable (name : NodeName) (attempts : PositiveInteger) (path : DiagnosticPath)
    (bindings : List WriteBinding) : Analysis Unit := do
  emitIf (maxAttemptsPerNode < attempts.get) .ceilingExceeded
    ("attempts exceeds full-v1 limit " ++ toString maxAttemptsPerNode) (withField path "attempts")
    [name]
  update fun analyzer =>
    ((bindings.map fun binding => binding.value.node).filter fun node => node != name).foldl
      (fun analyzer node => analyzer.addDependencies name [node])
      { analyzer with attempts := OrdMap.insert name attempts analyzer.attempts }

/-- `index_identity`. -/
def indexIdentity (node : GraphNode) (path : DiagnosticPath) : Analysis Unit := do
  let analyzer ← read
  let name := node.name
  update fun analyzer =>
    { analyzer.addDependencies name [] with authored := analyzer.authored ++ [name] }
  match OrdMap.get? analyzer.nodes name with
  | some previous =>
    emitDiagnostic .invalidGraphShape ("duplicate node name " ++ name.asStr) path
      [previous.node.name]
  | none =>
    update fun analyzer =>
      { analyzer with
        nodes := OrdMap.insert name ⟨node, path, analyzer.authored.length - 1⟩ analyzer.nodes }

/-- `validate_node_depth`. -/
def validateNodeDepth (name : NodeName) (path : DiagnosticPath) (depth : Nat) : Analysis Unit :=
  emitIf (maxGraphDepth < depth) .ceilingExceeded
    ("graph depth exceeds " ++ toString maxGraphDepth) path [name]

mutual

/-- `index_node`. -/
def indexNode (root : NodeName) (node : GraphNode) (path : DiagnosticPath) (depth : Nat) :
    Analysis Unit := do
  indexIdentity node path
  validateNodeDepth node.name path depth
  match node with
  | .step step => indexExecutable step.name step.attempts path step.writeBindings
  | .verifier verifier =>
    indexExecutable verifier.name verifier.attempts path verifier.writeBindings
  | .seq _ children => indexNodes root "children" children path depth 0
  | .choice _ branches otherwise =>
    indexBranches root branches path depth 0
    indexOtherwise root otherwise path depth
  | .par _ branches join =>
    match join with
    | .first guard => countGuard root guard (fieldPath path ["join", "when"])
    | .all | .any | .quorum _ => pure ()
    indexNodes root "branches" branches path depth 0
  | .loop group body untilGuard _ _ =>
    update fun analyzer => { analyzer with loops := analyzer.loops ++ [group.name] }
    match untilGuard with
    | some guard => countGuard root guard (withField path "until")
    | none => pure ()
    indexNode root body (namedChildPath path "body" body.name) (depth + 1)
  | .map _ body _ _ => indexNode root body (namedChildPath path "body" body.name) (depth + 1)
  | .succeed _ => pure ()
  | .fail _ => pure ()

/-- `index_sequence`, and the branches of `index_parallel`. -/
def indexNodes (root : NodeName) (field : String) (nodes : List GraphNode) (path : DiagnosticPath)
    (depth index : Nat) : Analysis Unit :=
  match nodes with
  | [] => pure ()
  | node :: nodes => do
    indexNode root node (childPath path field index node.name) (depth + 1)
    indexNodes root field nodes path depth (index + 1)

/-- The branches of `index_choice`. -/
def indexBranches (root : NodeName) (branches : List (Guard × GraphNode)) (path : DiagnosticPath)
    (depth index : Nat) : Analysis Unit :=
  match branches with
  | [] => pure ()
  | (guard, node) :: branches => do
    countGuard root guard (guardPath path "branches" index "when")
    indexNode root node (choiceBranchNodePath path index node.name) (depth + 1)
    indexBranches root branches path depth (index + 1)

/-- The fallback of `index_choice`. -/
def indexOtherwise (root : NodeName) (otherwise : Option GraphNode) (path : DiagnosticPath)
    (depth : Nat) : Analysis Unit :=
  match otherwise with
  | none => pure ()
  | some node => indexNode root node (namedChildPath path "otherwise" node.name) (depth + 1)

end

/-- `validate_global_limits`. -/
def validateGlobalLimits : Analysis Unit := do
  let analyzer ← read
  emitIf (maxGraphNodes < analyzer.authored.length) .ceilingExceeded
    ("graph node count exceeds " ++ toString maxGraphNodes) rootPath []
  emitIf (maxGuardNodes < analyzer.guardNodes) .ceilingExceeded
    ("graph guard-node count exceeds " ++ toString maxGuardNodes) rootPath []

/-! ## Owners -/

mutual

/-- `find_map_owner`. -/
def findMapOwner (target : NodeName) (node : GraphNode) (owner : Option NodeName) :
    Option NodeName :=
  if node.name == target then owner
  else
    match node with
    | .seq _ children => findMapOwnerIn target children owner
    | .choice _ branches otherwise =>
      (findMapOwnerInBranches target branches owner).or
        (findMapOwnerInOtherwise target otherwise owner)
    | .par _ branches _ => findMapOwnerIn target branches owner
    | .loop _ body _ _ _ => findMapOwner target body owner
    | .map group body _ _ => findMapOwner target body (some group.name)
    | .step _ | .verifier _ | .succeed _ | .fail _ => none

def findMapOwnerIn (target : NodeName) (nodes : List GraphNode) (owner : Option NodeName) :
    Option NodeName :=
  match nodes with
  | [] => none
  | node :: nodes => (findMapOwner target node owner).or (findMapOwnerIn target nodes owner)

def findMapOwnerInBranches (target : NodeName) (branches : List (Guard × GraphNode))
    (owner : Option NodeName) : Option NodeName :=
  match branches with
  | [] => none
  | (_, node) :: branches =>
    (findMapOwner target node owner).or (findMapOwnerInBranches target branches owner)

def findMapOwnerInOtherwise (target : NodeName) (otherwise : Option GraphNode)
    (owner : Option NodeName) : Option NodeName :=
  match otherwise with
  | none => none
  | some node => findMapOwner target node owner

end

/-- `map_owner`. -/
def GraphNode.mapOwner (root : GraphNode) (target : NodeName) : Option NodeName :=
  findMapOwner target root none

end Zeroshot
