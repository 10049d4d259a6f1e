import Zeroshot.Ledger.Lifecycle
import Zeroshot.Ledger.Sourcing

set_option autoImplicit false

/-!
# Public projections of a run

What the observation service shows of a run: its status, projected from a snapshot, and its log
lines. A status is an error only for a finished run without a result, which no accepted event makes;
a log line names an execution, which every later snapshot still has under the same address.
-/

namespace Zeroshot.Observability

open Ledger

/-! ## Statuses -/

structure RunMetadata where
  tokenUsage : Option TokenUsage
  deliveryReceipt : Option Value
  deriving DecidableEq, Repr

inductive RunStatus
  | admitted
  | running (activeExecutions : List ActiveExecution)
  | stopping (activeExecutions : List ActiveExecution)
  | finished (terminalResult : TerminalResult) (metadata : RunMetadata)
  deriving DecidableEq, Repr

/-- `NativeV2ObservationError`, without the errors of attaching. -/
inductive ObservationError
  | executionNotFound
  | invalidState
  | ledger (error : RunLedgerError)
  deriving DecidableEq, Repr

/-- `RunSnapshot::delivery_receipt`. -/
def deliveryReceipt (snapshot : RunSnapshot) : Option Value :=
  snapshot.primaryGraph.bind fun primary =>
    primary.deliveryExecution.bind snapshot.executionOutput

def runMetadata (snapshot : RunSnapshot) : RunMetadata :=
  ⟨snapshot.tokenUsage, deliveryReceipt snapshot⟩

/-- `status_from_snapshot`. -/
def statusFromSnapshot (wire : Wire) (snapshot : RunSnapshot) : Except ObservationError RunStatus :=
  let activeExecutions := snapshot.activeExecutions.map fun node =>
    (⟨wire.executionToken node.reference, node.reference.node⟩ : ActiveExecution)
  match snapshot.phase with
  | .admitted => .ok .admitted
  | .running => .ok (.running activeExecutions)
  | .stopping => .ok (.stopping activeExecutions)
  | .finished =>
    match snapshot.terminal with
    | some result => .ok (.finished result (runMetadata snapshot))
    | none => .error .invalidState

/-- `changes_public_status`. -/
def changesPublicStatus : RunEvent → Bool
  | .safeLog _ _ _ _ _ | .tokenUsageObserved _ _ | .runTokenUsageObserved _
  | .primaryGraphCompleted _ _ _ => false
  | _ => true

/-! ## Log lines -/

inductive LogLevel
  | debug
  | info
  | error
  deriving DecidableEq, Repr

structure LogRecord where
  level : LogLevel
  target : String
  message : String
  deriving DecidableEq, Repr

structure RunLogEventNotification where
  subscriptionId : String
  runId : RunId
  cursor : Cursor
  timestamp : PositiveInteger
  execution : Option String
  record : LogRecord
  deriving DecidableEq, Repr

def logTarget : String := "agent"

def logRecord (stream : SafeLogStream) (line : SafeLogLine) : LogRecord where
  level :=
    match stream with
    | .output => .info
    | .error => .error
    | .system => .debug
  target := logTarget
  message := boundedLogMessage (boundedLogText (visibleText line.asStr.toList) maxLogMessageBytes)

/-- The public selector of the execution a log line names. -/
def publicExecution (wire : Wire) (snapshot : RunSnapshot) :
    Option ExecutionId → Except ObservationError (Option String)
  | none => .ok none
  | some execution =>
    match OrdMap.get? snapshot.executions execution with
    | some node => .ok (some (wire.executionToken node.reference))
    | none => .error .invalidState

/-- `log_notification`. -/
def logNotification (wire : Wire) (subscriptionId : String) (snapshot : RunSnapshot)
    (filter : Option ExecutionId) (stored : StoredRunEvent) :
    Except ObservationError (Option RunLogEventNotification) :=
  match stored.event with
  | .safeLog execution timestamp stream line _ =>
    if filter.isSome && filter ≠ execution then .ok none
    else do
      let execution ← publicExecution wire snapshot execution
      .ok (some ⟨subscriptionId, snapshot.runId, stored.cursor, timestamp, execution,
        logRecord stream line⟩)
  | _ => .ok none

/-- `resolve_public_execution`: the first execution with the selector. -/
def resolvePublicExecution (wire : Wire) (snapshot : RunSnapshot) (selector : String) :
    Except ObservationError ExecutionId :=
  match (OrdMap.values snapshot.executions).find? fun node =>
      wire.executionToken node.reference = selector with
  | some node => .ok node.reference.execution
  | none => .error .executionNotFound

/-! ## What snapshots keep -/

/-- The status of a snapshot that a run reaches is never an error. -/
theorem statusFromSnapshot_ok (wire : Wire) {snapshot : RunSnapshot} {events : List RunEvent}
    (h : Phases events snapshot) : ∃ status, statusFromSnapshot wire snapshot = .ok status := by
  unfold statusFromSnapshot
  cases hphase : snapshot.phase with
  | admitted => exact ⟨_, rfl⟩
  | running => exact ⟨_, rfl⟩
  | stopping => exact ⟨_, rfl⟩
  | finished =>
    obtain ⟨result, hresult⟩ := Option.isSome_iff_exists.mp (h.terminal.mpr hphase)
    exact ⟨.finished result (runMetadata snapshot), by simp only [hresult]⟩

/-- `t` has every execution of `s`, under the same address. -/
structure KeepsReferences (s t : RunSnapshot) : Prop where
  found : ∀ id node, OrdMap.get? s.executions id = some node →
    ∃ node', OrdMap.get? t.executions id = some node' ∧ node'.reference = node.reference
  listed : ∀ node ∈ OrdMap.values s.executions,
    ∃ node' ∈ OrdMap.values t.executions, node'.reference = node.reference

theorem KeepsReferences.of_same {s t : RunSnapshot} (h : t.executions = s.executions) :
    KeepsReferences s t where
  found _ node hnode := ⟨node, h ▸ hnode, rfl⟩
  listed node hnode := ⟨node, h ▸ hnode, rfl⟩

theorem KeepsReferences.refl (s : RunSnapshot) : KeepsReferences s s := .of_same rfl

theorem KeepsReferences.trans {s t u : RunSnapshot} (h : KeepsReferences s t)
    (h' : KeepsReferences t u) : KeepsReferences s u where
  found id node hnode := by
    obtain ⟨node', hnode', href⟩ := h.found id node hnode
    obtain ⟨node'', hnode'', href'⟩ := h'.found id node' hnode'
    exact ⟨node'', hnode'', href'.trans href⟩
  listed node hnode := by
    obtain ⟨node', hnode', href⟩ := h.listed node hnode
    obtain ⟨node'', hnode'', href'⟩ := h'.listed node' hnode'
    exact ⟨node'', hnode'', href'.trans href⟩

/-- Setting an execution keeps the references when it keeps that of the execution it replaces. -/
theorem KeepsReferences.insert {s t : RunSnapshot} {id : ExecutionId} {node : NodeSnapshot}
    (ht : t.executions = OrdMap.insert id node s.executions)
    (hnode : ∀ old, OrdMap.get? s.executions id = some old → node.reference = old.reference) :
    KeepsReferences s t where
  found id' old hold := by
    rw [ht]
    by_cases heq : id' = id
    · subst heq
      exact ⟨node, OrdMap.get?_insert_self .., hnode old hold⟩
    · refine ⟨old, ?_, rfl⟩
      rw [OrdMap.get?_insert_ne heq]
      exact hold
  listed old hold := by
    obtain ⟨entry, hentry, rfl⟩ := List.mem_map.mp hold
    rw [ht]
    rcases OrdMap.mem_insert_of_mem id node hentry with hkept | hreplaced
    · exact ⟨entry.2, List.mem_map.mpr ⟨entry, hkept, rfl⟩, rfl⟩
    · exact ⟨node, List.mem_map.mpr ⟨(id, node), OrdMap.mem_insert_self .., rfl⟩,
        hnode _ hreplaced⟩

theorem changes_keepsReferences {n : Nat} {event : RunEvent} {s t : RunSnapshot}
    (h : Changes n event s t) : KeepsReferences s t := by
  cases h with
  | priorExecution => exact .of_same rfl
  | runStarted => exact .of_same rfl
  | nodeStarted _ _ _ _ fresh _ =>
    refine .insert rfl fun old hold => ?_
    rw [fresh] at hold
    cases hold
  | nodeCompleted _ _ _ dispatched _ _ =>
    refine .insert rfl fun old hold => ?_
    rw [dispatched] at hold
    cases hold
    rfl
  | executionVoided _ dispatched _ _ =>
    refine .insert rfl fun old hold => ?_
    rw [dispatched] at hold
    cases hold
    rfl
  | observed _ change =>
    rcases change.executions with heq | ⟨id, node, hnode, heq⟩
    · exact .of_same heq
    · refine .insert heq fun old hold => ?_
      rw [hnode] at hold
      cases hold
      rfl
  | primaryGraphCompleted => exact .of_same rfl
  | forceStopRequested => exact .of_same rfl
  | terminal => exact .of_same rfl

theorem step_keepsReferences {wire : Wire} {event : RunEvent} {n : Nat} {s t : RunSnapshot}
    (h : step wire event n s = some t) : KeepsReferences s t := by
  obtain ⟨-, -, u, hchanges, rfl⟩ := applyEvent_eq_ok (step_eq_some.mp h)
  have hkeeps := changes_keepsReferences hchanges
  exact ⟨hkeeps.found, hkeeps.listed⟩

theorem replay_keepsReferences {wire : Wire} {n : Nat} {s t : RunSnapshot}
    {events : List RunEvent} (h : replay (step wire) n s events = some t) : KeepsReferences s t :=
  replay_invariant (P := fun _ u => KeepsReferences s u)
    (fun _ _ _ _ hstep hs => hs.trans (step_keepsReferences hstep)) h (.refl s)

/-- An accepted log line names an execution of the run. -/
theorem step_safeLog {wire : Wire} {execution : Option ExecutionId} {timestamp : PositiveInteger}
    {stream : SafeLogStream} {line : SafeLogLine} {diagnostic : Option FailureDiagnosticKind}
    {n : Nat} {s t : RunSnapshot}
    (h : step wire (.safeLog execution timestamp stream line diagnostic) n s = some t) :
    ∀ id, execution = some id → ∃ node, OrdMap.get? s.executions id = some node := by
  have happly := step_eq_some.mp h
  unfold applyEvent at happly
  obtain ⟨-, happly⟩ := runs_require_bind.mp happly
  obtain ⟨_, _, hvalid, happly⟩ := runs_bind.mp happly
  unfold requireBounded at hvalid
  split at hvalid
  case isFalse => exact absurd hvalid runs_throw
  case isTrue =>
    obtain ⟨-, rfl⟩ := runs_pure.mp hvalid
    obtain ⟨_, _, hkind, -⟩ := runs_bind.mp happly
    unfold applyEventKind applySafeLog at hkind
    obtain ⟨hknown, -⟩ := runs_require_bind.mp hkind
    rintro id rfl
    exact Option.isSome_iff_exists.mp hknown

/-- A run that is finished ends with the event of its result. -/
theorem replay_terminal {wire : Wire} {seed s : RunSnapshot} {events : List RunEvent}
    (hseed : seed.terminal = none) (h : replay (step wire) 0 seed events = some s)
    (hterminal : s.terminal.isSome = true) :
    ∃ result, events.getLast? = some (.terminal result) := by
  have hlast : s.terminal.isSome = true → ∃ result, events.getLast? = some (.terminal result) := by
    refine replay_history (P := fun events s => s.terminal.isSome = true →
      ∃ result, events.getLast? = some (.terminal result)) h (by simp [hseed]) ?_
    intro front event u u' _ hstep hfinished
    obtain ⟨hopen, -, t, hchanges, rfl⟩ := applyEvent_eq_ok (step_eq_some.mp hstep)
    have hnone : ∀ v : RunSnapshot, v.terminal = u.terminal → ¬ v.terminal.isSome = true := by
      intro v hv
      simp [hv, hopen]
    cases hchanges with
    | terminal => exact ⟨_, List.getLast?_concat⟩
    | observed _ change => exact absurd hfinished (hnone _ (by rw [change.rest]))
    | _ => exact absurd hfinished (hnone u rfl)
  exact hlast hterminal

end Zeroshot.Observability
