import Zeroshot.Reducer.Stability
import Zeroshot.Verifier.Verify

set_option autoImplicit false

/-!
# Runs

How the supervisor and its workers grow a history. The current reduction decides what may be
recorded: a dispatch it asks for becomes an active execution, a loser it names becomes voided, and
an active execution may settle at any time with an outcome that is valid for its node. Every event
takes a position after all the positions so far.

A run is a list of events; `Reachable` histories are those of some run from the empty history. The
gate restricts when dispatches are recorded: `anyTime`, or only once the reduction asks for no void
(`voidsFirst`), which is what the supervisor does.
-/

namespace Zeroshot

/-! ## Reducing a history -/

/-- The largest of some numbers, zero when there is none. -/
def maximum (values : List Nat) : Nat := values.foldr max 0

/-- `next_node_instance`. -/
def nextNodeInstance (executions : List DurableExecution) : Nat :=
  maximum (executions.map fun e => e.nodeInstance.get) + 1

/-- `next_execution`. -/
def nextExecution (executions : List DurableExecution) : Nat :=
  maximum (executions.map fun e => e.execution.get) + 1

/-- What the supervisor hands to the reducer. -/
def runInput (initialInput : Value) (executions : List DurableExecution) : ReductionInput :=
  ⟨initialInput, executions, nextNodeInstance executions, nextExecution executions⟩

/-- The supervisor's `reduce`. -/
def reduceRun (root : GraphNode) (initialInput : Value) (executions : List DurableExecution) :
    Except ReducerError Reduction :=
  reduce .nativeV2 root (runInput initialInput executions)

/-! ## Valid outcomes -/

/-- `validate_signals`. -/
def signalsValid (expected : OrdMap FieldName NonEmptyEnumSet)
    (actual : OrdMap FieldName EnumLabel) : Bool :=
  (OrdMap.keys expected).all (OrdMap.contains actual) &&
    actual.all fun entry =>
      (OrdMap.get? expected entry.1).any fun labels => labels.values.contains entry.2

/-- The value has the type. -/
def PayloadType.accepts (type : PayloadType) (value : Value) : Bool :=
  (type.validateValue value).isOk

/-- `validate_outcome`: the outcome fits the node's role and its declared types. -/
def outcomeValid : GraphNode → WorkerOutcome → Bool
  | .step _, .error _ _ => true
  | .verifier _, .error _ _ => true
  | .step node, .verified output _ => node.output.accepts output
  | .verifier node, .verifier output signals diagnostic _ =>
    node.output.accepts output && node.diagnostic.accepts diagnostic &&
      signalsValid node.signals signals
  | _, _ => false

/-- The outcome is valid for the node of the given name. -/
def outcomeValidFor (root : GraphNode) (name : NodeName) (outcome : WorkerOutcome) : Bool :=
  root.descendants.any fun node => node.name == name && outcomeValid node outcome

/-! ## Events -/

inductive RunEvent
  | dispatch (recorded : List (ExecutionId × HistoryPosition))
  | settle (execution : ExecutionId) (position : HistoryPosition) (outcome : WorkerOutcome)
  | void (execution : ExecutionId) (position : HistoryPosition)
  deriving DecidableEq, Repr

/-- The position comes after every position of the history. -/
def isAfter (executions : List DurableExecution) (position : HistoryPosition) : Bool :=
  executions.all fun e => e.positions.all fun earlier => earlier < position

/-- The active execution a dispatch decision records. -/
def recordedAt (position : HistoryPosition) : Decision → Option DurableExecution
  | .dispatch nodeInstance execution occurrence attempt _ _ input =>
    some ⟨position, nodeInstance, execution, occurrence, attempt, input, .active⟩
  | .voidLoser _ _ | .continues _ | .promote _ _ _ | .terminal _ => none

/-- What recording the dispatch of the execution adds to the history. -/
def dispatchedAs (decisions : List Decision) (execution : ExecutionId)
    (position : HistoryPosition) : Option DurableExecution :=
  (decisions.filterMap (recordedAt position)).find? fun e => e.execution == execution

/-- Record some of the dispatches a reduction asks for, one after the other. -/
def recordDispatches (decisions : List Decision) :
    List (ExecutionId × HistoryPosition) → List DurableExecution → Option (List DurableExecution)
  | [], executions => some executions
  | (execution, position) :: recorded, executions =>
    match dispatchedAs decisions execution position with
    | none => none
    | some e =>
      if isAfter executions position && executions.all fun other => other.execution != execution
      then recordDispatches decisions recorded (executions ++ [e])
      else none

/-- Why the decisions void the execution. -/
def voidReason (decisions : List Decision) (execution : ExecutionId) :
    Option ExecutionVoidReason :=
  decisions.findSome? fun
    | .voidLoser loser reason => if loser = execution then some reason else none
    | .dispatch _ _ _ _ _ _ _ | .continues _ | .promote _ _ _ | .terminal _ => none

/-- Give the active execution a final state. -/
def finalize (executions : List DurableExecution) (execution : ExecutionId)
    (state : DurableExecutionState) : List DurableExecution :=
  executions.map fun e => if e.execution = execution then { e with state } else e

/-- The active execution of the history with the given identity. -/
def activeExecution (executions : List DurableExecution) (execution : ExecutionId) :
    Option DurableExecution :=
  executions.find? fun e => e.execution == execution && e.isActive

/-- When dispatches may be recorded. -/
inductive DispatchGate
  | anyTime
  | voidsFirst
  deriving DecidableEq, Repr

def DispatchGate.isOpen : DispatchGate → Reduction → Bool
  | anyTime, _ => true
  | voidsFirst, reduction => !reduction.decisions.any Progress.isVoid

/-- The history after one event, when the event can happen. -/
def applyEvent (gate : DispatchGate) (root : GraphNode) (initialInput : Value)
    (executions : List DurableExecution) : RunEvent → Option (List DurableExecution)
  | .dispatch recorded =>
    match reduceRun root initialInput executions with
    | .error _ => none
    | .ok reduction =>
      if gate.isOpen reduction then recordDispatches reduction.decisions recorded executions
      else none
  | .settle execution position outcome =>
    match activeExecution executions execution with
    | none => none
    | some e =>
      if isAfter executions position && outcomeValidFor root e.occurrence.node outcome then
        some (finalize executions execution (.settled position outcome))
      else none
  | .void execution position =>
    match reduceRun root initialInput executions with
    | .error _ => none
    | .ok reduction =>
      match activeExecution executions execution, voidReason reduction.decisions execution with
      | some _, some reason =>
        if isAfter executions position then
          some (finalize executions execution (.voided position reason))
        else none
      | _, _ => none

/-- The history after the events of a run. -/
def runEvents (gate : DispatchGate) (root : GraphNode) (initialInput : Value) :
    List RunEvent → List DurableExecution → Option (List DurableExecution)
  | [], executions => some executions
  | event :: events, executions =>
    match applyEvent gate root initialInput executions event with
    | none => none
    | some executions => runEvents gate root initialInput events executions

/-- The histories of the runs of a graph. -/
def Reachable (gate : DispatchGate) (root : GraphNode) (initialInput : Value)
    (executions : List DurableExecution) : Prop :=
  ∃ events, runEvents gate root initialInput events [] = some executions

/-! ## Small graphs

Steps without data, for runs on concrete graphs. -/

namespace Sample

def a : NodeName := ⟨"a", by decide⟩
def b : NodeName := ⟨"b", by decide⟩
def c : NodeName := ⟨"c", by decide⟩
def f : NodeName := ⟨"f", by decide⟩
def l : NodeName := ⟨"l", by decide⟩
def p : NodeName := ⟨"p", by decide⟩
def s : NodeName := ⟨"s", by decide⟩

def worker : WorkerRef := ⟨"w@1", by decide⟩

def policy : PolicyBinding := ⟨⟨"p@1", by decide⟩, .deny⟩

/-- Every worker takes and returns null. -/
def registry : WorkerRegistry := fun worker =>
  .ok ⟨worker, [.full], .null, .null, none, none⟩

def group (name : NodeName) : Group := ⟨name, .null, []⟩

def step (name : NodeName) : GraphNode :=
  .step ⟨name, worker, none, .null, .null, [], [], none, PositiveInteger.one⟩

theorem validateIdentifier_x : validateIdentifier "x" = true := by decide

theorem validateIdentifier_i : validateIdentifier "i" = true := by decide

def fail (name : NodeName) : GraphNode := .fail ⟨name, ⟨⟨"x", validateIdentifier_x⟩, by decide⟩⟩

def two : PositiveInteger := ⟨2, Nat.zero_lt_two, by decide⟩

/-- The `n`-th execution. -/
def execution (n : Nat) : ExecutionId := ⟨n % 2 ^ 63 + 1, Nat.succ_pos _, by omega⟩

/-- The node instance of an execution that is the first of its occurrence. -/
def nodeInstance (n : Nat) : NodeInstanceId :=
  ⟨(execution n).get, (execution n).positive, (execution n).bounded⟩

def position (n : Nat) : HistoryPosition := ⟨n % 2 ^ 63, Nat.mod_lt _ (by decide)⟩

/-- The outcome of a step that succeeds. -/
def done : WorkerOutcome := .verified .null []

end Sample

end Zeroshot
