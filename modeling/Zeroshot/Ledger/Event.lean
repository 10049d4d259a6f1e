import Zeroshot.Reducer.Engine

set_option autoImplicit false

/-!
# Run events and snapshots

The data of the native-v2 run ledger: the events a run records, the snapshot they fold into, the
stored run, and the errors of the ledger. Everything the ledger compares but never looks into (the
graph, its input and its runtime) is one type parameter, `Program`.
-/

namespace Zeroshot.Ledger

/-! ## Identifiers -/

inductive OpaqueTag
  | run
  | submission
  deriving DecidableEq, Repr

/-- An identifier of any text. -/
structure OpaqueId (tag : OpaqueTag) where
  asStr : String
  deriving DecidableEq, Repr

abbrev RunId := OpaqueId .run

/-- `IdempotencyKey`. -/
abbrev SubmissionKey := OpaqueId .submission

instance (tag : OpaqueTag) : Ord (OpaqueId tag) where
  compare a b := compareBytes a.asStr.toByteArray.data.toList b.asStr.toByteArray.data.toList

instance (tag : OpaqueTag) : Std.LawfulEqOrd (OpaqueId tag) where
  compare_self := compareBytes_self _
  eq_of_compare {a b} h := by
    have hbytes : a.asStr.toByteArray = b.asStr.toByteArray :=
      ByteArray.ext (Array.toList_inj.mp (eq_of_compareBytes h))
    cases a
    cases b
    cases String.toByteArray_inj.mp hbytes
    rfl

/-- `ExecutionRef`: the stable address of one dispatch. -/
structure ExecutionRef where
  runId : RunId
  node : NodeName
  nodeInstance : NodeInstanceId
  execution : ExecutionId
  deriving DecidableEq, Repr

/-! ## Token usage -/

/-- `TokenCount`: a counter clients can represent exactly. -/
structure TokenCount where
  get : Nat
  safe : get ≤ maxSafeGeneration
  deriving Repr

instance : DecidableEq TokenCount := fun a b =>
  decidable_of_iff (a.get = b.get) (by cases a; cases b; simp)

def TokenCount.zero : TokenCount := ⟨0, Nat.zero_le _⟩

/-- `TokenCount::checked_add`. -/
def TokenCount.checkedAdd (left right : TokenCount) : Option TokenCount :=
  if h : left.get + right.get ≤ maxSafeGeneration then some ⟨left.get + right.get, h⟩ else none

structure TokenUsageDelta where
  inputTokens : TokenCount
  outputTokens : TokenCount
  cacheReadInputTokens : Option TokenCount
  cacheCreationInputTokens : Option TokenCount
  deriving DecidableEq, Repr

structure TokenUsage where
  inputTokens : TokenCount
  outputTokens : TokenCount
  cacheReadInputTokens : Option TokenCount
  cacheCreationInputTokens : Option TokenCount
  complete : Bool
  deriving DecidableEq, Repr

/-! ## Events -/

def maxSafeLogBytes : Nat := 16 * 1024

/-- `SafeLogLine`: a bounded line without NUL. -/
structure SafeLogLine where
  asStr : String
  bounded : asStr.utf8ByteSize ≤ maxSafeLogBytes
  noNul : '\x00' ∉ asStr.toList
  deriving DecidableEq, Repr

inductive SafeLogStream
  | output
  | error
  | system
  deriving DecidableEq, Repr

structure NodeCompletion where
  reference : ExecutionRef
  outcome : WorkerOutcome
  deriving DecidableEq, Repr

inductive RunEvent
  | priorExecution (execution : DurableExecution)
  | runStarted
  | nodeStarted (reference : ExecutionRef) (occurrence : StructuralOccurrence)
      (attempt : PositiveInteger) (input : Value)
  | nodeCompleted (completion : NodeCompletion)
  | executionVoided (reference : ExecutionRef) (reason : ExecutionVoidReason)
  | safeLog (execution : Option ExecutionId) (timestamp : PositiveInteger)
      (stream : SafeLogStream) (line : SafeLogLine) (diagnostic : Option FailureDiagnosticKind)
  | tokenUsageObserved (execution : ExecutionId) (usage : Option TokenUsageDelta)
  | runTokenUsageObserved (usage : Option TokenUsageDelta)
  | primaryGraphCompleted (result : TerminalResult) (auxiliaryPending : Bool)
      (deliveryExecution : Option ExecutionId)
  | forceStopRequested
  | terminal (result : TerminalResult)
  deriving DecidableEq, Repr

structure StoredRunEvent where
  cursor : Cursor
  event : RunEvent
  deriving DecidableEq, Repr

/-! ## Snapshots -/

inductive RunPhase
  | admitted
  | running
  | stopping
  | finished
  deriving DecidableEq, Repr

inductive NodeState
  | active
  | completed (at_ : Cursor) (outcome : WorkerOutcome)
  | voided (at_ : Cursor) (reason : ExecutionVoidReason)
  deriving DecidableEq, Repr

structure NodeSnapshot where
  reference : ExecutionRef
  occurrence : StructuralOccurrence
  attempt : PositiveInteger
  input : Value
  startedAt : Cursor
  state : NodeState
  failureDiagnostic : Bool
  deriving DecidableEq, Repr

structure PrimaryGraphCompletion where
  result : TerminalResult
  auxiliaryPending : Bool
  deliveryExecution : Option ExecutionId
  deriving DecidableEq, Repr

inductive RunSize
  | small
  | medium
  | large
  | xl
  | gpuT4
  deriving DecidableEq, Repr

/-- `ResolvedSource`: where the run's workspace comes from. -/
structure ResolvedSource where
  repository : String
  branch : String
  revision : String
  remote : Option String
  deriving DecidableEq, Repr

structure RunSnapshot where
  runId : RunId
  title : String
  source : Option ResolvedSource
  size : RunSize
  cursor : Cursor
  phase : RunPhase
  forceStopRequested : Bool
  executions : OrdMap ExecutionId NodeSnapshot
  executionSeed : List DurableExecution
  primaryGraph : Option PrimaryGraphCompletion
  terminal : Option TerminalResult
  tokenUsage : Option TokenUsage
  failureContext : Option FailureContext
  deriving DecidableEq, Repr

def NodeSnapshot.isActive (node : NodeSnapshot) : Bool := node.state matches .active

/-- `RunSnapshot::active_executions`. -/
def RunSnapshot.activeExecutions (snapshot : RunSnapshot) : List NodeSnapshot :=
  (OrdMap.values snapshot.executions).filter NodeSnapshot.isActive

/-- The output of a verifier outcome. -/
def verifierOutput : WorkerOutcome → Option Value
  | .verifier output _ _ _ => some output
  | .verified _ _ | .error _ _ => none

/-- `RunSnapshot::execution_output`: the output of a completed verifier, of this run or its
seed. -/
def RunSnapshot.executionOutput (snapshot : RunSnapshot) (execution : ExecutionId) :
    Option Value :=
  match OrdMap.get? snapshot.executions execution with
  | some node =>
    match node.state with
    | .completed _ outcome => verifierOutput outcome
    | .active | .voided _ _ => none
  | none =>
    match snapshot.executionSeed.find? fun prior => prior.execution == execution with
    | some prior =>
      match prior.state with
      | .settled _ outcome => verifierOutput outcome
      | .active | .voided _ _ => none
    | none => none

/-! ## Stored runs -/

/-- `AdmittedRun`. The ledger reads its title, source and size, and compares the rest. -/
structure AdmittedRun (Program : Type) where
  title : String
  source : Option ResolvedSource
  size : RunSize
  program : Program
  deriving DecidableEq, Repr

structure CreateRun (Program : Type) where
  runId : RunId
  submissionKey : SubmissionKey
  submissionDigest : String
  admitted : AdmittedRun Program
  deriving DecidableEq, Repr

structure StoredRun (Program : Type) where
  submissionKey : SubmissionKey
  submissionDigest : String
  admitted : AdmittedRun Program
  snapshot : RunSnapshot
  deriving DecidableEq, Repr

inductive CreateRunOutcome (Program : Type)
  | created (run : StoredRun Program)
  | existing (run : StoredRun Program)
  deriving DecidableEq, Repr

structure AppendResult where
  snapshot : RunSnapshot
  events : List StoredRunEvent
  deriving DecidableEq, Repr

structure SnapshotAndTail where
  snapshot : RunSnapshot
  events : List StoredRunEvent
  deriving DecidableEq, Repr

inductive RunLedgerError
  | runNotFound
  | submissionConflict (existingRunId : RunId)
  | runIdConflict
  | invalidCursor
  | cursorAhead
  | admittedRunTooLarge
  | eventTooLarge
  | invalidEvent (message : String)
  | storage
  | sqliteStorage
  | corrupt
  deriving DecidableEq, Repr

end Zeroshot.Ledger
