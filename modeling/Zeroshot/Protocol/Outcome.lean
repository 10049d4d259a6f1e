import Zeroshot.Protocol.Graph

set_option autoImplicit false

/-!
# Worker outcomes and terminal results

What a worker reports about one execution, and what a run reports about itself: a terminal result,
and for a failed run the recorded failures that led to it.
-/

namespace Zeroshot

/-! ## Outcomes -/

/-- `ArtifactRef`, by its identifier; nothing here looks further into it. -/
structure ArtifactRef where
  artifactId : String
  deriving DecidableEq, Repr

inductive WorkerFailureReason
  | declaredFailure
  | policyDenied
  | interactiveInputRequired
  | authenticationRequired
  | malformedResult
  deriving DecidableEq, Repr

/-- A normalized worker outcome. -/
inductive WorkerOutcome
  | verified (output : Value) (artifacts : List ArtifactRef)
  | verifier (output : Value) (signals : OrdMap FieldName EnumLabel) (diagnostic : Value)
      (artifacts : List ArtifactRef)
  | error (code : WorkerErrorCode) (reason : WorkerFailureReason)
  deriving DecidableEq, Repr

/-- `valid_failure_pair`: which reasons may accompany which error codes. -/
def validFailurePair : WorkerErrorCode → WorkerFailureReason → Bool
  | _, .declaredFailure => true
  | .refusal, .policyDenied => true
  | .refusal, .interactiveInputRequired => true
  | .refusal, .authenticationRequired => true
  | .malformed, .malformedResult => true
  | _, _ => false

/-- `WorkerOutcome::validate`. -/
def WorkerOutcome.isValid : WorkerOutcome → Bool
  | error code reason => validFailurePair code reason
  | verified _ _ => true
  | verifier _ _ _ _ => true

/-! ## Failures -/

/-- A position in a run's event log, as text. -/
structure Cursor where
  asStr : String
  deriving DecidableEq, Repr

inductive FailureDiagnosticKind
  | failure
  | incomplete
  deriving DecidableEq, Repr

/-- `ActiveExecution`: the public selector of an execution, and its node. -/
structure ActiveExecution where
  execution : String
  node : NodeName
  deriving DecidableEq, Repr

/-- One recorded explanation. -/
structure FailureDiagnostic where
  message : String
  execution : Option ActiveExecution
  cursor : Option Cursor
  deriving DecidableEq, Repr

def maxRecordedFailures : Nat := 5

/-- The known cause of a failure, and the most recent recorded node failures. -/
structure FailureContext where
  primary : Option FailureDiagnostic
  recorded : List FailureDiagnostic
  incomplete : Bool
  deriving DecidableEq, Repr

/-- `FailureContext::default`. -/
def FailureContext.empty : FailureContext := ⟨none, [], false⟩

/-- `FailureContext::record`: the oldest of five records makes room for a sixth. -/
def FailureContext.record (context : FailureContext) (diagnostic : FailureDiagnostic) :
    FailureContext :=
  if context.recorded.length = maxRecordedFailures then
    { context with recorded := context.recorded.tail ++ [diagnostic], incomplete := true }
  else { context with recorded := context.recorded ++ [diagnostic] }

/-- The projection of a finished run. -/
inductive TerminalResult
  | succeeded (output : Value)
  | failed (reason : EnumLabel) (context : Option FailureContext)
  deriving DecidableEq, Repr

end Zeroshot
