import Zeroshot.Lib.Logged
import Zeroshot.Reducer.Values

set_option autoImplicit false

/-!
# Engine operations

Evaluating a graph reads the history and the facts collected from the root (`Engine`), and updates
the reducer's mutable fields (`Progress`): the boundary, the two identity counters, the decisions,
the consumed executions and the void cutoffs. No part of an evaluation reads those fields except
the operations that update them, so an evaluation logs its operations as a list of `Effect`s and
`Progress.apply` performs them one after the other.

`Effect.joined` and `Effect.itemTerminated` change nothing: they record which branches won a join
and which item ended a map.
-/

namespace Zeroshot

/-! ## Statuses and decisions -/

inductive Status
  | pending
  | continuing (position : HistoryPosition)
  | terminal (position : HistoryPosition) (projection : TerminalResult)
  deriving DecidableEq, Repr

namespace Status

/-- `Status::position`; a pending status has the largest position. -/
def position : Status → HistoryPosition
  | pending => HistoryPosition.max
  | continuing position => position
  | terminal position _ => position

/-- `Status::after`. -/
def after (prior : HistoryPosition) : Status → Status
  | terminal position projection => terminal (max position prior) projection
  | other => other

end Status

/-- One executable visit, or the outermost parallel or map visit around it. -/
structure ExecutionBoundary where
  node : NodeName
  mapIndices : List Nat
  loopIterations : List Nat
  attempt : Nat
  deriving DecidableEq, Repr

inductive Decision
  | dispatch (nodeInstance : NodeInstanceId) (execution : ExecutionId)
      (occurrence : StructuralOccurrence) (attempt : PositiveInteger) (iteration : Nat)
      (worker : WorkerRef) (input : Value)
  | voidLoser (execution : ExecutionId) (reason : ExecutionVoidReason)
  | continues (node : NodeName)
  | promote (node : NodeName) (mapIndices : List Nat) (values : List PromotedValue)
  | terminal (projection : TerminalResult)
  deriving DecidableEq, Repr

inductive EvalMode
  | decide
  | probe
  deriving DecidableEq, Repr

structure Traversal where
  mapIndices : List Nat
  loopIterations : List Nat
  boundary : Option ExecutionBoundary
  item : Option Value
  mode : EvalMode
  cutoff : HistoryPosition
  deriving Repr

/-! ## Effects -/

/-- One visit of an executable: where it is, its number among the visits of the occurrence, the
input bound for it and the executions it takes. -/
structure Visit where
  occurrence : StructuralOccurrence
  loopIterations : List Nat
  number : Nat
  input : Value
  executions : List ExecutionId
  deriving DecidableEq, Repr

/-- A dispatch before its identities are allocated. -/
structure DispatchRequest where
  nodeInstance : Option NodeInstanceId
  boundary : ExecutionBoundary
  occurrence : StructuralOccurrence
  attempt : PositiveInteger
  loopIterations : List Nat
  worker : WorkerRef
  input : Value
  deriving DecidableEq, Repr

/-- `VoidScope` and `MapVoidScope`: what a decided group visit gives up. -/
structure VoidScope where
  descendants : List NodeName
  mapIndices : List Nat
  winnerScope : Option (List Nat)
  cutoff : HistoryPosition
  reason : ExecutionVoidReason
  emitDecisions : Bool
  deriving DecidableEq, Repr

/-- A parallel visit whose join was reached. -/
structure JoinRecord where
  group : NodeName
  mapIndices : List Nat
  loopIterations : List Nat
  winners : List Nat
  position : HistoryPosition
  deriving DecidableEq, Repr

/-- A map visit one of whose items reached a terminal. -/
structure ItemRecord where
  group : NodeName
  mapIndices : List Nat
  loopIterations : List Nat
  item : Nat
  position : HistoryPosition
  deriving DecidableEq, Repr

inductive Effect
  | visit (visit : Visit)
  | dispatch (request : DispatchRequest)
  | void (scope : VoidScope)
  | joined (record : JoinRecord)
  | itemTerminated (record : ItemRecord)
  | decision (decision : Decision)
  deriving DecidableEq, Repr

/-! ## Progress -/

/-- What an evaluation reads. -/
structure Engine where
  executions : List DurableExecution
  mapDepths : OrdMap NodeName Nat
  optionalPromotions : OrdMap NodeName (OrdSet FieldPath)
  executionMode : ExecutionMode

structure VoidCutoff where
  position : HistoryPosition
  reason : ExecutionVoidReason
  deriving DecidableEq, Repr

instance (tag : IdentityTag) : Ord (PositiveIdentity tag) where
  compare a b := compare a.get b.get

instance (tag : IdentityTag) : Std.LawfulEqOrd (PositiveIdentity tag) where
  compare_self := Std.ReflOrd.compare_self (a := (_ : Nat))
  eq_of_compare {a b} h := by
    cases a
    cases b
    cases Std.LawfulEqOrd.eq_of_compare (α := Nat) h
    rfl

/-- What an evaluation updates. -/
structure Progress where
  boundary : Option ExecutionBoundary
  nextNodeInstance : Nat
  nextExecution : Nat
  decisions : List Decision
  consumedExecutions : OrdSet ExecutionId
  voidCutoffs : OrdMap ExecutionId VoidCutoff

namespace Progress

/-- The next counter value, while it fits 64 bits. -/
def nextIdentity (value : Nat) : Except ReducerError Nat :=
  if value + 1 < 2 ^ 64 then .ok (value + 1) else .error .identityOutOfRange

def identity (tag : IdentityTag) (value : Nat) : Except ReducerError (PositiveIdentity tag) :=
  match PositiveIdentity.new tag value with
  | some id => .ok id
  | none => .error .identityOutOfRange

/-- The node instance of a dispatch: the occurrence's own, or a fresh one. -/
def allocateNodeInstance (existing : Option NodeInstanceId) (progress : Progress) :
    Except ReducerError (NodeInstanceId × Progress) :=
  match existing with
  | some nodeInstance => .ok (nodeInstance, progress)
  | none => do
    let allocated ← identity .nodeInstance progress.nextNodeInstance
    let next ← nextIdentity progress.nextNodeInstance
    .ok (allocated, { progress with nextNodeInstance := next })

/-- `record_boundary`. -/
def recordBoundary (boundary : ExecutionBoundary) (progress : Progress) :
    Except ReducerError Progress :=
  match progress.boundary with
  | some current =>
    if current = boundary then .ok progress else .error .inconsistentHistory
  | none => .ok { progress with boundary := some boundary }

/-- `allocate_execution`. -/
def allocateExecution (progress : Progress) : Except ReducerError (ExecutionId × Progress) := do
  let allocated ← identity .execution progress.nextExecution
  let next ← nextIdentity progress.nextExecution
  .ok (allocated, { progress with nextExecution := next })

def push (decision : Decision) (progress : Progress) : Progress :=
  { progress with decisions := progress.decisions ++ [decision] }

/-- The end of `dispatch_missing` and `dispatch_retry`. -/
def dispatch (request : DispatchRequest) (progress : Progress) : Except ReducerError Progress := do
  let (nodeInstance, progress) ← allocateNodeInstance request.nodeInstance progress
  let progress ← recordBoundary request.boundary progress
  let (execution, progress) ← allocateExecution progress
  .ok (push (.dispatch nodeInstance execution request.occurrence request.attempt
    (request.loopIterations.getLast?.getD 0) request.worker request.input) progress)

/-- `consumed_executions.insert` for the executions of one visit. -/
def consume (visit : Visit) (progress : Progress) : Progress :=
  { progress with
    consumedExecutions := OrdSet.extend progress.consumedExecutions visit.executions }

/-- Whether a decision voids the execution. -/
def voids (execution : ExecutionId) : Decision → Bool
  | .voidLoser existing _ => existing == execution
  | _ => false

/-- `push_void_decision`. -/
def pushVoidDecision (execution : ExecutionId) (reason : ExecutionVoidReason)
    (progress : Progress) : Progress :=
  if progress.decisions.any (voids execution) then progress
  else push (.voidLoser execution reason) progress

/-- The cutoff kept for an execution: the earliest, and the first of the earliest. -/
def earlierCutoff (existing : Option VoidCutoff) (cutoff : VoidCutoff) : VoidCutoff :=
  match existing with
  | none => cutoff
  | some existing => if cutoff.position < existing.position then cutoff else existing

/-- `record_void_cutoff`. -/
def recordVoidCutoff (execution : ExecutionId) (cutoff : VoidCutoff) (progress : Progress) :
    VoidCutoff × Progress :=
  let kept := earlierCutoff (OrdMap.get? progress.voidCutoffs execution) cutoff
  (kept, { progress with voidCutoffs := OrdMap.insert execution kept progress.voidCutoffs })

/-- The executions a scope gives up: consumed, below the group visit, outside the winner's scope
and not settled. -/
def isLoser (progress : Progress) (scope : VoidScope) (e : DurableExecution) : Bool :=
  OrdSet.contains progress.consumedExecutions e.execution &&
    scope.descendants.contains e.occurrence.node &&
    scope.mapIndices.isPrefixOf e.occurrence.mapIndices &&
    (scope.winnerScope.all fun winner => !winner.isPrefixOf e.occurrence.mapIndices) &&
    !e.isSettled

def loserBefore (a b : DurableExecution) : Prop :=
  a.dispatchPosition < b.dispatchPosition ∨
    a.dispatchPosition = b.dispatchPosition ∧ a.execution.get ≤ b.execution.get

instance : DecidableRel loserBefore := fun a b =>
  inferInstanceAs (Decidable (a.dispatchPosition < b.dispatchPosition ∨
    a.dispatchPosition = b.dispatchPosition ∧ a.execution.get ≤ b.execution.get))

/-- One loser: record the cutoff, and ask to void it while it is active. -/
def voidLoser (scope : VoidScope) (e : DurableExecution) (progress : Progress) : Progress :=
  let (kept, progress) := recordVoidCutoff e.execution ⟨scope.cutoff, scope.reason⟩ progress
  if e.isActive && scope.emitDecisions then pushVoidDecision e.execution kept.reason progress
  else progress

/-- `void_active_descendants` and `void_map_losers`. -/
def voidLosers (executions : List DurableExecution) (scope : VoidScope) (progress : Progress) :
    Progress :=
  ((executions.filter (isLoser progress scope)).insertionSort loserBefore).foldl
    (fun progress e => voidLoser scope e progress) progress

/-- Perform one effect. -/
def apply (executions : List DurableExecution) (effect : Effect) (progress : Progress) :
    Except ReducerError Progress :=
  match effect with
  | .visit visit => .ok (consume visit progress)
  | .dispatch request => dispatch request progress
  | .void scope => .ok (voidLosers executions scope progress)
  | .joined _ => .ok progress
  | .itemTerminated _ => .ok progress
  | .decision decision => .ok (push decision progress)

/-- Perform a log. -/
def replay (executions : List DurableExecution) : List Effect → Progress →
    Except ReducerError Progress
  | [], progress => .ok progress
  | effect :: log, progress => do
    let progress ← apply executions effect progress
    replay executions log progress

/-! ## Canonical void decisions -/

/-- Keep the first void decision of every execution. -/
def uniqueVoids : List ExecutionId → List Decision → List Decision
  | _, [] => []
  | seen, .voidLoser execution reason :: decisions =>
    if seen.contains execution then uniqueVoids seen decisions
    else .voidLoser execution reason :: uniqueVoids (execution :: seen) decisions
  | seen, decision :: decisions => decision :: uniqueVoids seen decisions

/-- The sort key of a void decision: where its execution was dispatched, and its identity. -/
def voidKey (executions : List DurableExecution) : Decision → HistoryPosition × Nat
  | .voidLoser execution _ =>
    (((executions.find? fun e => e.execution == execution).map
      DurableExecution.dispatchPosition).getD HistoryPosition.max, execution.get)
  | _ => (HistoryPosition.max, 0)

def voidBefore (executions : List DurableExecution) (a b : Decision) : Prop :=
  (voidKey executions a).1 < (voidKey executions b).1 ∨
    (voidKey executions a).1 = (voidKey executions b).1 ∧
      (voidKey executions a).2 ≤ (voidKey executions b).2

instance (executions : List DurableExecution) : DecidableRel (voidBefore executions) :=
  fun a b => inferInstanceAs (Decidable ((voidKey executions a).1 < (voidKey executions b).1 ∨
    (voidKey executions a).1 = (voidKey executions b).1 ∧
      (voidKey executions a).2 ≤ (voidKey executions b).2))

def isVoid : Decision → Bool
  | .voidLoser _ _ => true
  | _ => false

/-- Put the sorted void decisions into the slots of the unsorted ones. -/
def fillSlots : List Decision → List Decision → List Decision
  | [], _ => []
  | decision :: decisions, sorted =>
    if isVoid decision then
      match sorted with
      | [] => decision :: fillSlots decisions []
      | first :: rest => first :: fillSlots decisions rest
    else decision :: fillSlots decisions sorted

/-- `canonicalize_void_decisions`. -/
def canonicalizeVoidDecisions (executions : List DurableExecution) (decisions : List Decision) :
    List Decision :=
  let unique := uniqueVoids [] decisions
  fillSlots unique ((unique.filter isVoid).insertionSort (voidBefore executions))

/-- `ensure_history_consumed`. -/
def historyConsumed (executions : List DurableExecution) (progress : Progress) : Bool :=
  executions.all fun e =>
    OrdSet.contains progress.consumedExecutions e.execution &&
      match e.state with
      | .voided position reason =>
        match OrdMap.get? progress.voidCutoffs e.execution with
        | some cutoff => decide (cutoff.position < position) && reason == cutoff.reason
        | none => false
      | .active | .settled _ _ => true

end Progress

end Zeroshot
