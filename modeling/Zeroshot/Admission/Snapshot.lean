import Mathlib.Data.Finset.Card
import Zeroshot.Ledger.Event
import Zeroshot.Lib.Machine
import Zeroshot.Verifier.Finalize

set_option autoImplicit false

/-!
# Admission and lifecycle snapshots

The store hands the admission service an aggregate: the admitted graph with its run, and the
lifecycle of the run, which is an event log together with what the log amounts to (the operational
status, the verified and the void turns, the pending failure and retry). `validateSnapshot` accepts
an aggregate whose phase, graph and lifecycle agree; it replays the log and compares the projection
with it by membership tests and one total count.
-/

namespace Zeroshot.Admission

open Ledger (RunId)

/-! ## Identifiers and settings -/

/-- `TurnId`. -/
structure TurnId where
  asStr : String
  deriving DecidableEq, Repr

/-- `BoundedString256::new`. -/
def boundedString256 (value : String) : Bool :=
  !value.isEmpty && decide (value.length ≤ 256) && !value.toList.any fun c =>
    decide (c.toNat < 32 ∨ (127 ≤ c.toNat ∧ c.toNat < 160))

/-- `Label`: a bounded label key or value. -/
structure Label where
  asStr : String
  bounded : boundedString256 asStr = true

theorem Label.ext {a b : Label} (h : a.asStr = b.asStr) : a = b := by
  cases a
  cases b
  cases h
  rfl

instance : DecidableEq Label := fun a b =>
  decidable_of_iff (a.asStr = b.asStr) ⟨Label.ext, congrArg Label.asStr⟩

def maxLabels : Nat := 64

/-- `Labels`: at most `maxLabels` entries. -/
structure Labels where
  entries : OrdMap Label Label
  bounded : entries.length ≤ maxLabels

theorem Labels.ext {a b : Labels} (h : a.entries = b.entries) : a = b := by
  cases a
  cases b
  cases h
  rfl

instance : DecidableEq Labels := fun a b =>
  decidable_of_iff (a.entries = b.entries) ⟨Labels.ext, congrArg Labels.entries⟩

inductive LogLevel
  | trace
  | debug
  | info
  | warn
  | error
  deriving DecidableEq, Repr

inductive DispatchState
  | active
  | suspended
  | draining
  | forceStopping
  | stopped
  deriving DecidableEq, Repr

inductive StopMode
  | drain
  | force
  deriving DecidableEq, Repr

inductive TurnFailureKind
  | failed
  | refused
  | timeout
  | crash
  deriving DecidableEq, Repr

inductive FailureRetryability
  | retryable
  | attemptsExhausted
  deriving DecidableEq, Repr

/-- The values of an unsigned 32-bit integer lie below. -/
def u32Limit : Nat := 2 ^ 32

/-- `OperationalStatus`. -/
structure OperationalStatus where
  labels : Labels
  logLevel : LogLevel
  dispatchState : DispatchState
  stopMode : Option StopMode
  inFlight : Nat
  deriving DecidableEq

/-- `OperationalStatus::default`. -/
def OperationalStatus.default : OperationalStatus :=
  ⟨⟨[], Nat.zero_le maxLabels⟩, .info, .active, none, 0⟩

/-! ## The log -/

inductive LifecycleEvent
  | dispatched (turnId : TurnId)
  | updated (labels : Option Labels) (logLevel : Option LogLevel) (suspended : Option Bool)
  | stopRequested (acceptedMode effectiveMode : StopMode)
  | verified (turnId : TurnId)
  | void (turnId : TurnId)
  | finished (mode : StopMode)
  | failed (turnId : TurnId) (kind : TurnFailureKind) (retryability : FailureRetryability)
  | retried (failedTurnId retryTurnId : TurnId)
  deriving DecidableEq

structure LifecycleRecord where
  cursor : Cursor
  event : LifecycleEvent
  deriving DecidableEq

/-- `VerifiedTurn`. -/
structure VerifiedTurn where
  turnId : TurnId
  output : Value
  cursor : Cursor

/-- `VoidTurn`. -/
structure VoidTurn where
  turnId : TurnId
  cursor : Cursor
  deriving DecidableEq

/-- `LifecycleSnapshot`. -/
structure LifecycleSnapshot where
  operational : Option OperationalStatus
  latestCursor : Option Cursor
  records : List LifecycleRecord
  verifiedTurns : List VerifiedTurn
  voidTurns : List VoidTurn
  pendingFailedFrontier : Option TurnId
  pendingRetryTurn : Option TurnId

/-- Equality with `LifecycleSnapshot::default`. -/
def LifecycleSnapshot.isDefault (lifecycle : LifecycleSnapshot) : Bool :=
  lifecycle.operational.isNone && lifecycle.latestCursor.isNone && lifecycle.records.isEmpty &&
    lifecycle.verifiedTurns.isEmpty && lifecycle.voidTurns.isEmpty &&
    lifecycle.pendingFailedFrontier.isNone && lifecycle.pendingRetryTurn.isNone

/-! ## Replaying the log -/

/-- `LifecycleFold`. -/
structure LifecycleFold where
  dispatched : Finset TurnId
  inFlight : Finset TurnId
  outcomes : Finset TurnId
  operational : OperationalStatus
  finished : Bool
  pendingFailedFrontier : Option TurnId
  pendingRetryTurn : Option TurnId

/-- `LifecycleFold::default`. -/
def LifecycleFold.default : LifecycleFold := ⟨∅, ∅, ∅, .default, false, none, none⟩

/-- `sync_in_flight`. -/
def syncInFlight (fold : LifecycleFold) : Option LifecycleFold :=
  if fold.inFlight.card < u32Limit then
    some { fold with operational := { fold.operational with inFlight := fold.inFlight.card } }
  else none

/-- `fold_dispatch`. -/
def foldDispatch (fold : LifecycleFold) (turnId : TurnId) : Option LifecycleFold :=
  if fold.operational.dispatchState ≠ .active ∨ turnId ∈ fold.dispatched ∨
      turnId ∈ fold.inFlight ∨ (∃ pending ∈ fold.pendingRetryTurn, pending ≠ turnId) then none
  else
    let fold := { fold with
      dispatched := insert turnId fold.dispatched
      inFlight := insert turnId fold.inFlight }
    if fold.pendingRetryTurn = some turnId then
      syncInFlight { fold with pendingRetryTurn := none }
    else syncInFlight { fold with pendingFailedFrontier := none }

/-- `fold_failed`. -/
def foldFailed (fold : LifecycleFold) (turnId : TurnId) (retryability : FailureRetryability) :
    Option LifecycleFold :=
  if fold.operational.dispatchState = .forceStopping ∨ fold.operational.dispatchState = .stopped ∨
      turnId ∉ fold.inFlight then none
  else syncInFlight { fold with
    inFlight := fold.inFlight.erase turnId
    pendingFailedFrontier :=
      match retryability with
      | .retryable => some turnId
      | .attemptsExhausted => none }

/-- `fold_retried`. -/
def foldRetried (fold : LifecycleFold) (failedTurnId retryTurnId : TurnId) :
    Option LifecycleFold :=
  if fold.pendingFailedFrontier ≠ some failedTurnId ∨ fold.pendingRetryTurn.isSome ∨
      failedTurnId = retryTurnId ∨ retryTurnId ∈ fold.dispatched then none
  else some { fold with
    pendingFailedFrontier := none
    pendingRetryTurn := some retryTurnId }

/-- `fold_update`. -/
def foldUpdate (fold : LifecycleFold) (labels : Option Labels) (logLevel : Option LogLevel)
    (suspended : Option Bool) : Option LifecycleFold :=
  if (fold.operational.dispatchState ≠ .active ∧ fold.operational.dispatchState ≠ .suspended) ∨
      (labels.isNone ∧ logLevel.isNone ∧ suspended.isNone) ∨ fold.operational.stopMode.isSome then
    none
  else some { fold with
    operational := { fold.operational with
      labels := labels.getD fold.operational.labels
      logLevel := logLevel.getD fold.operational.logLevel
      dispatchState :=
        match suspended with
        | none => fold.operational.dispatchState
        | some true => .suspended
        | some false => .active } }

/-- The stop requests `fold_stop_request` takes in a dispatch state. -/
def stopRequestIsValid (acceptedMode effectiveMode : StopMode) : DispatchState → Bool
  | .active | .suspended | .draining => acceptedMode = effectiveMode
  | .forceStopping | .stopped => false

/-- The dispatch state of a stop mode. -/
def StopMode.stopping : StopMode → DispatchState
  | drain => .draining
  | force => .forceStopping

/-- `fold_stop_request`. -/
def foldStopRequest (fold : LifecycleFold) (acceptedMode effectiveMode : StopMode) :
    Option LifecycleFold :=
  if stopRequestIsValid acceptedMode effectiveMode fold.operational.dispatchState then
    some { fold with
      operational := { fold.operational with
        dispatchState := effectiveMode.stopping
        stopMode := some effectiveMode } }
  else none

/-- `fold_verified`. -/
def foldVerified (fold : LifecycleFold) (lifecycle : LifecycleSnapshot) (record : LifecycleRecord)
    (turnId : TurnId) : Option LifecycleFold :=
  if fold.operational.dispatchState ≠ .forceStopping ∧ fold.operational.dispatchState ≠ .stopped ∧
      turnId ∈ fold.inFlight ∧ turnId ∉ fold.outcomes ∧
      (∃ turn ∈ lifecycle.verifiedTurns, turn.turnId = turnId ∧ turn.cursor = record.cursor) then
    syncInFlight { fold with
      inFlight := fold.inFlight.erase turnId
      outcomes := insert turnId fold.outcomes }
  else none

/-- `fold_void`. -/
def foldVoid (fold : LifecycleFold) (lifecycle : LifecycleSnapshot) (record : LifecycleRecord)
    (turnId : TurnId) : Option LifecycleFold :=
  if fold.operational.dispatchState = .forceStopping ∧
      turnId ∈ fold.inFlight ∧ turnId ∉ fold.outcomes ∧
      (∃ turn ∈ lifecycle.voidTurns, turn.turnId = turnId ∧ turn.cursor = record.cursor) then
    syncInFlight { fold with
      inFlight := fold.inFlight.erase turnId
      outcomes := insert turnId fold.outcomes }
  else none

/-- `fold_finished`. -/
def foldFinished (fold : LifecycleFold) (mode : StopMode) : Option LifecycleFold :=
  if fold.inFlight ≠ ∅ ∨ fold.operational.dispatchState ≠ mode.stopping ∨
      fold.operational.stopMode ≠ some mode then none
  else some { fold with
    operational := { fold.operational with
      dispatchState := .stopped
      inFlight := 0 }
    finished := true
    pendingFailedFrontier := none
    pendingRetryTurn := none }

/-- `fold_record`. -/
def foldRecord (fold : LifecycleFold) (lifecycle : LifecycleSnapshot) (record : LifecycleRecord) :
    Option LifecycleFold :=
  match record.event with
  | .dispatched turnId => foldDispatch fold turnId
  | .verified turnId => foldVerified fold lifecycle record turnId
  | .void turnId => foldVoid fold lifecycle record turnId
  | .finished mode => foldFinished fold mode
  | .updated labels logLevel suspended => foldUpdate fold labels logLevel suspended
  | .stopRequested acceptedMode effectiveMode => foldStopRequest fold acceptedMode effectiveMode
  | .failed turnId _ retryability => foldFailed fold turnId retryability
  | .retried failedTurnId retryTurnId => foldRetried fold failedTurnId retryTurnId

/-- One turn of the loop of `lifecycle_record_fold_is_valid`. -/
def foldStep (lifecycle : LifecycleSnapshot) (record : LifecycleRecord) (fold : LifecycleFold) :
    Option LifecycleFold :=
  if fold.finished then none else foldRecord fold lifecycle record

/-- `fold_counts_match`. -/
def foldCountsMatch (fold : LifecycleFold) (lifecycle : LifecycleSnapshot) : Bool :=
  decide ((lifecycle.operational.elim 0 OperationalStatus.inFlight) = fold.inFlight.card) &&
    decide (fold.outcomes.card = lifecycle.verifiedTurns.length + lifecycle.voidTurns.length) &&
    decide (lifecycle.pendingFailedFrontier = fold.pendingFailedFrontier) &&
    decide (lifecycle.pendingRetryTurn = fold.pendingRetryTurn) &&
    decide (lifecycle.operational = some fold.operational)

/-- `lifecycle_record_fold_is_valid`. -/
def lifecycleRecordFoldIsValid (lifecycle : LifecycleSnapshot) : Bool :=
  match Machine.run (foldStep lifecycle) lifecycle.records .default with
  | none => false
  | some fold => foldCountsMatch fold lifecycle

/-! ## The aggregate -/

inductive Phase
  | empty
  | admitting
  | running
  | finished
  | deleting
  deriving DecidableEq, Repr

/-- `Generation`. -/
structure Generation where
  get : Nat
  safe : get ≤ maxSafeGeneration

/-- `ControlSnapshot`. -/
structure ControlSnapshot where
  spec : Option GraphSpec
  compiledIr : Option CompiledGraphIr
  generation : Option Generation
  runId : Option RunId
  phase : Phase
  cursor : Option Cursor

/-- `VerifiedSeed`. -/
structure VerifiedSeed where
  runId : RunId
  input : Value
  cursor : Cursor

/-- `AdmissionSnapshot`. -/
structure AdmissionSnapshot where
  control : ControlSnapshot
  seed : Option VerifiedSeed

/-- `snapshot_is_empty`. -/
def snapshotIsEmpty (snapshot : AdmissionSnapshot) : Bool :=
  snapshot.control.spec.isNone && snapshot.control.compiledIr.isNone &&
    snapshot.control.generation.isNone && snapshot.control.runId.isNone &&
    snapshot.control.cursor.isNone && snapshot.seed.isNone

/-- `snapshot_is_committed`. A compiled graph has an identity when it has canonical bytes. -/
def snapshotIsCommitted (snapshot : AdmissionSnapshot) : Bool :=
  match snapshot.control.spec, snapshot.control.compiledIr, snapshot.control.generation,
      snapshot.control.runId, snapshot.control.cursor, snapshot.seed with
  | some spec, some compiledIr, some generation, some runId, some cursor, some seed =>
    decide (0 < generation.get) && decide (seed.runId = runId) && decide (seed.cursor = cursor) &&
      (spec.initialInput.validateValue seed.input).isOk && compiledIr.canonicalBytes.isOk
  | _, _, _, _, _, _ => false

/-- `natural_terminal_lifecycle`. -/
def naturalTerminalLifecycle (phase : Phase) (lifecycle : LifecycleSnapshot)
    (operational : OperationalStatus) : Bool :=
  decide (phase = .finished) && decide (operational.dispatchState = .stopped) &&
    operational.stopMode.isNone && decide (operational.inFlight = 0) &&
    lifecycle.records.isEmpty && lifecycle.verifiedTurns.isEmpty && lifecycle.voidTurns.isEmpty &&
    lifecycle.pendingFailedFrontier.isNone && lifecycle.pendingRetryTurn.isNone

/-- `latest_cursor_matches`. -/
def latestCursorMatches (snapshot : AdmissionSnapshot) (lifecycle : LifecycleSnapshot)
    (latestCursor : Cursor) : Bool :=
  match lifecycle.records.getLast? with
  | none => decide (snapshot.control.cursor = some latestCursor)
  | some record => decide (record.cursor = latestCursor)

def LifecycleEvent.isFinished : LifecycleEvent → Bool
  | finished _ => true
  | _ => false

/-- `finished_phase_matches`. -/
def finishedPhaseMatches (lifecycle : LifecycleSnapshot) (operational : OperationalStatus)
    (finishedCount : Nat) : Bool :=
  decide (operational.dispatchState = .stopped) && decide (finishedCount = 1) &&
    match lifecycle.records.getLast?.map LifecycleRecord.event with
    | some (.finished mode) => decide (operational.stopMode = some mode)
    | _ => false

/-- `running_phase_matches`. -/
def runningPhaseMatches (dispatchState : DispatchState) (finishedCount : Nat) : Bool :=
  decide (dispatchState ≠ .stopped) && decide (dispatchState ≠ .forceStopping) &&
    decide (finishedCount = 0)

/-- `phase_matches`. -/
def phaseMatches (phase : Phase) (lifecycle : LifecycleSnapshot) (operational : OperationalStatus) :
    Bool :=
  let finishedCount := (lifecycle.records.filter fun record => record.event.isFinished).length
  match phase with
  | .finished | .deleting => finishedPhaseMatches lifecycle operational finishedCount
  | .empty => false
  | .admitting | .running => runningPhaseMatches operational.dispatchState finishedCount

/-- `stop_state_matches`. -/
def stopStateMatches (operational : OperationalStatus) : Bool :=
  match operational.dispatchState with
  | .active | .suspended => operational.stopMode.isNone
  | .draining => decide (operational.stopMode = some .drain)
  | .forceStopping => decide (operational.stopMode = some .force)
  | .stopped => operational.stopMode.isSome

/-- `lifecycle_is_committed`. -/
def lifecycleIsCommitted (snapshot : AdmissionSnapshot) (lifecycle : LifecycleSnapshot) : Bool :=
  match lifecycle.operational, lifecycle.latestCursor with
  | some operational, some latestCursor =>
    latestCursorMatches snapshot lifecycle latestCursor &&
      (naturalTerminalLifecycle snapshot.control.phase lifecycle operational ||
        (phaseMatches snapshot.control.phase lifecycle operational &&
          stopStateMatches operational && lifecycleRecordFoldIsValid lifecycle))
  | _, _ => false

/-- `BackendError`, as `BackendError::new` makes it. -/
structure BackendError where
  code : String
  message : String
  deriving DecidableEq, Repr

def internalErrorCode : String := "INTERNAL_ERROR"

/-- `validate_snapshot`. -/
def validateSnapshot (snapshot : AdmissionSnapshot) (lifecycle : LifecycleSnapshot) :
    Except BackendError Unit :=
  let isEmpty := snapshotIsEmpty snapshot
  let isCommitted := snapshotIsCommitted snapshot
  let lifecycleEmpty := lifecycle.isDefault
  let lifecycleCommitted := lifecycleIsCommitted snapshot lifecycle
  let valid :=
    match snapshot.control.phase with
    | .empty => isEmpty && lifecycleEmpty
    | .admitting => (isEmpty && lifecycleEmpty) || (isCommitted && lifecycleCommitted)
    | .running | .finished | .deleting => isCommitted && lifecycleCommitted
  if valid then .ok ()
  else .error ⟨internalErrorCode, "admission store returned an inconsistent phase snapshot"⟩

end Zeroshot.Admission
