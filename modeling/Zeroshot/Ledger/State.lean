import Zeroshot.Ledger.Event

set_option autoImplicit false

/-!
# The run state machine

How one event changes the snapshot of a run (`apply_event`). A handler updates the snapshot in
place and may stop with an error half way, so it is a computation in `Mutation`, which keeps the
snapshot reached also when it fails. The encoded size of an event and the public name of an
execution come from outside and are parameters (`Wire`).
-/

namespace Zeroshot.Ledger

/-! ## Cursors -/

/-- `cursor_for`. -/
def cursorFor (sequence : Nat) : Cursor := ⟨"v2:" ++ toString sequence⟩

/-- `INITIAL_CURSOR`. -/
def initialCursor : Cursor := ⟨"v2:0"⟩

/-- The digits of a 64-bit number, read from the left. -/
def parseDigits : List Char → Nat → Option Nat
  | [], value => some value
  | digit :: digits, value =>
    if digit.isDigit then
      let value := 10 * value + (digit.toNat - '0'.toNat)
      if value < 2 ^ 64 then parseDigits digits value else none
    else none

/-- `u64::from_str`: digits, after an optional plus sign. -/
def parseU64 : List Char → Option Nat
  | [] => none
  | '+' :: [] => none
  | '+' :: digits => parseDigits digits 0
  | digits => parseDigits digits 0

/-- `cursor_sequence`. -/
def cursorSequence (cursor : Cursor) : Except RunLedgerError Nat :=
  match cursor.asStr.toList with
  | 'v' :: '2' :: ':' :: digits =>
    match parseU64 digits with
    | some sequence => .ok sequence
    | none => .error .invalidCursor
  | _ => .error .invalidCursor

/-! ## Visible text -/

/-- `char::is_control`. -/
def isControl (character : Char) : Bool :=
  character.toNat < 0x20 || (0x7f ≤ character.toNat && character.toNat ≤ 0x9f)

/-- `char::escape_default` on a control character. -/
def escapeControl (character : Char) : List Char :=
  if character = '\t' then ['\\', 't']
  else if character = '\r' then ['\\', 'r']
  else if character = '\n' then ['\\', 'n']
  else ['\\', 'u', '\x7b'] ++ Nat.toDigits 16 character.toNat ++ ['\x7d']

/-- `visible_text`. -/
def visibleText (text : List Char) : List Char :=
  text.flatMap fun character => if isControl character then escapeControl character else [character]

def utf8Length (text : List Char) : Nat := (text.map Char.utf8Size).sum

/-- `utf8_prefix`: the longest start of the text within the bytes. -/
def utf8Prefix : List Char → Nat → List Char
  | [], _ => []
  | character :: text, bytes =>
    if character.utf8Size ≤ bytes then character :: utf8Prefix text (bytes - character.utf8Size)
    else []

/-- `utf8_suffix`: the longest end of the text within the bytes. -/
def utf8Suffix (text : List Char) (bytes : Nat) : List Char :=
  (utf8Prefix text.reverse bytes).reverse

/-- `DIAGNOSTIC_TRUNCATION_MARKER`. -/
def diagnosticTruncationMarker : List Char := " ... [middle truncated] ... ".toList

/-- `bounded_log_text`. -/
def boundedLogText (text : List Char) (maximumBytes : Nat) : List Char :=
  let diagnostic := text.map fun character =>
    if character = '\x00' then '\uFFFD'
    else if isControl character && character != '\n' && character != '\t' then ' '
    else character
  if utf8Length diagnostic ≤ maximumBytes then diagnostic
  else
    let contentBytes := maximumBytes - utf8Length diagnosticTruncationMarker
    let start := utf8Prefix diagnostic (contentBytes / 2)
    let finish := utf8Suffix diagnostic (contentBytes - utf8Length start)
    start ++ diagnosticTruncationMarker ++ finish

def maxLogMessageBytes : Nat := 16384

/-- `BoundedLogMessage::new`, or the redaction marker when it fails. -/
def boundedLogMessage (text : List Char) : String :=
  if maxLogMessageBytes < utf8Length text || text.any isControl then
    "<redacted: message exceeded bounds>"
  else String.ofList text

/-! ## Encoded sizes -/

def maxAdmittedRunBytes : Nat := 2 * 1024 * 1024

def maxEventBytes : Nat := 1024 * 1024

def maxPriorExecutionBytes : Nat := 2 * maxEventBytes + 1024

def maxReplayEvents : Nat := 256

def maxReplayBytes : Nat := maxPriorExecutionBytes

/-- What the state machine takes from outside: the length of an event's JSON, when it has one, and
the token `public_execution` derives from an execution's address. -/
structure Wire where
  eventBytes : RunEvent → Option Nat
  executionToken : ExecutionRef → String

/-- The bound `validate_event` applies. -/
def eventLimit : RunEvent → Nat
  | .priorExecution _ => maxPriorExecutionBytes
  | _ => maxEventBytes

/-- `validate_event`. -/
def validateEvent (wire : Wire) (event : RunEvent) : Bool :=
  match wire.eventBytes event with
  | some bytes => bytes ≤ eventLimit event
  | none => false

/-! ## Prepared events -/

/-- The label of a run that was stopped by force. -/
def forceStopped : String := "force_stopped"

/-- The failure context a failed result is stored with. -/
def prepareResult (snapshot : RunSnapshot) : TerminalResult → TerminalResult
  | .failed reason none =>
    .failed reason (if reason.asStr = forceStopped then none else snapshot.failureContext)
  | result => result

/-- `prepare_event`. -/
def prepareEvent (snapshot : RunSnapshot) : RunEvent → RunEvent
  | .terminal result => .terminal (prepareResult snapshot result)
  | .primaryGraphCompleted result auxiliaryPending deliveryExecution =>
    .primaryGraphCompleted (prepareResult snapshot result) auxiliaryPending deliveryExecution
  | event => event

/-! ## Handlers -/

/-- A handler: it changes the snapshot in place, and may fail on the way. -/
abbrev Mutation (α : Type) := EStateM RunLedgerError RunSnapshot α

/-- Fail with the message unless the snapshot meets the condition. -/
def require (condition : RunSnapshot → Bool) (message : String) : Mutation Unit := do
  if condition (← get) then pure () else throw (.invalidEvent message)

/-- `apply_prior_execution`. -/
def applyPriorExecution (execution : DurableExecution) : Mutation Unit := do
  require (fun snapshot => snapshot.phase = .admitted && !execution.isActive &&
      !snapshot.executionSeed.getLast?.any fun previous =>
        execution.execution.get ≤ previous.execution.get ||
          execution.dispatchPosition ≤ previous.dispatchPosition)
    "invalid prerequisite execution"
  modify fun snapshot => { snapshot with executionSeed := snapshot.executionSeed ++ [execution] }

/-- `apply_run_started`. -/
def applyRunStarted : Mutation Unit := do
  require (fun snapshot => snapshot.phase = .admitted) "run already started"
  modify fun snapshot => { snapshot with phase := .running }

/-- `require_running`. -/
def requireRunning : Mutation Unit :=
  require (fun snapshot => snapshot.phase = .running && snapshot.primaryGraph.isNone)
    "run is not dispatchable"

/-- `require_run`. -/
def requireRun (reference : ExecutionRef) : Mutation Unit :=
  require (fun snapshot => snapshot.runId = reference.runId) "execution belongs to another run"

/-- `require_new_dispatch`. -/
def requireNewDispatch (reference : ExecutionRef) : Mutation Unit := do
  require (fun snapshot => !snapshot.forceStopRequested) "cannot dispatch after force-stop"
  require (fun snapshot => !OrdMap.contains snapshot.executions reference.execution &&
      !snapshot.executionSeed.any fun prior => prior.execution == reference.execution)
    "execution was already dispatched"

def setNode (execution : ExecutionId) (node : NodeSnapshot) : Mutation Unit :=
  modify fun snapshot =>
    { snapshot with executions := OrdMap.insert execution node snapshot.executions }

/-- `apply_node_started`. -/
def applyNodeStarted (reference : ExecutionRef) (occurrence : StructuralOccurrence)
    (attempt : PositiveInteger) (input : Value) (sequence : Nat) : Mutation Unit := do
  requireRunning
  requireRun reference
  requireNewDispatch reference
  setNode reference.execution
    ⟨reference, occurrence, attempt, input, cursorFor sequence, .active, false⟩

/-- `active_node_mut`. -/
def activeNode (reference : ExecutionRef) : Mutation NodeSnapshot := do
  match OrdMap.get? (← get).executions reference.execution with
  | none => throw (.invalidEvent "execution was not dispatched")
  | some node =>
    if node.reference ≠ reference then
      throw (.invalidEvent "execution reference does not match dispatch")
    else if !node.isActive then throw (.invalidEvent "execution is already settled")
    else pure node

/-- Give the active execution its final state. -/
def settleNode (reference : ExecutionRef) (state : NodeState) : Mutation Unit := do
  let node ← activeNode reference
  setNode reference.execution { node with state }

/-- The outcome names artifacts. -/
def hasArtifacts : WorkerOutcome → Bool
  | .verified _ artifacts => !artifacts.isEmpty
  | .verifier _ _ _ artifacts => !artifacts.isEmpty
  | .error _ _ => false

/-- `apply_node_completed`. -/
def applyNodeCompleted (completion : NodeCompletion) (sequence : Nat) : Mutation Unit := do
  requireRun completion.reference
  require (fun _ => !hasArtifacts completion.outcome)
    "native-v2 node outcomes cannot contain artifact references"
  require (fun _ => completion.outcome.isValid) "invalid worker outcome"
  settleNode completion.reference (.completed (cursorFor sequence) completion.outcome)

/-- `apply_execution_voided`. -/
def applyExecutionVoided (reference : ExecutionRef) (reason : ExecutionVoidReason)
    (sequence : Nat) : Mutation Unit := do
  requireRun reference
  settleNode reference (.voided (cursorFor sequence) reason)

/-! ## Observations -/

/-- `failure_context.get_or_insert_default()`, updated. -/
def updateFailureContext (update : FailureContext → FailureContext) : Mutation Unit :=
  modify fun snapshot =>
    { snapshot with
      failureContext := some (update (snapshot.failureContext.getD FailureContext.empty)) }

/-- `diagnostic_execution`: marks the execution and names it. -/
def diagnosticExecution (wire : Wire) : Option ExecutionId → Mutation (Option ActiveExecution)
  | none => pure none
  | some execution => do
    match OrdMap.get? (← get).executions execution with
    | none => throw (.invalidEvent "diagnostic execution was not dispatched")
    | some node =>
      setNode execution { node with failureDiagnostic := true }
      pure (some ⟨wire.executionToken node.reference, node.reference.node⟩)

/-- The context with one more diagnostic: the first one without an execution is the cause. -/
def recordDiagnostic (execution : Option ExecutionId) (diagnostic : FailureDiagnostic)
    (context : FailureContext) : FailureContext :=
  if execution.isNone && context.primary.isNone then { context with primary := some diagnostic }
  else context.record diagnostic

/-- `apply_failure_diagnostic`. -/
def applyFailureDiagnostic (wire : Wire) (execution : Option ExecutionId) (stream : SafeLogStream)
    (line : SafeLogLine) (diagnostic : Option FailureDiagnosticKind) (sequence : Nat) :
    Mutation Unit :=
  match diagnostic with
  | none => pure ()
  | some kind => do
    require (fun _ => stream = .error) "failure diagnostic must use the error stream"
    match kind with
    | .incomplete => updateFailureContext fun context => { context with incomplete := true }
    | .failure =>
      let publicExecution ← diagnosticExecution wire execution
      let message := boundedLogMessage
        (boundedLogText (visibleText line.asStr.toList) maxLogMessageBytes)
      updateFailureContext
        (recordDiagnostic execution ⟨message, publicExecution, some (cursorFor sequence)⟩)

/-- `apply_safe_log`. -/
def applySafeLog (wire : Wire) (execution : Option ExecutionId) (stream : SafeLogStream)
    (line : SafeLogLine) (diagnostic : Option FailureDiagnosticKind) (sequence : Nat) :
    Mutation Unit := do
  require (fun snapshot => execution.all fun id => OrdMap.contains snapshot.executions id)
    "log references an unknown execution"
  applyFailureDiagnostic wire execution stream line diagnostic sequence

/-- `add_tokens`. -/
def addTokens (left right : TokenCount) : Mutation TokenCount :=
  match left.checkedAdd right with
  | some total => pure total
  | none => throw (.invalidEvent "token usage overflow")

/-- `add_optional_tokens`. -/
def addOptionalTokens : Option TokenCount → Option TokenCount → Mutation (Option TokenCount)
  | some left, some right => do
    let total ← addTokens left right
    pure (some total)
  | _, _ => pure none

def setTokenUsage (usage : TokenUsage) : Mutation Unit :=
  modify fun snapshot => { snapshot with tokenUsage := some usage }

/-- `add_usage`: each counter is stored before the next one is added. -/
def addUsage (usage : Option TokenUsageDelta) : Mutation Unit := do
  match (← get).tokenUsage, usage with
  | none, some usage =>
    setTokenUsage ⟨usage.inputTokens, usage.outputTokens, usage.cacheReadInputTokens,
      usage.cacheCreationInputTokens, true⟩
  | none, none => setTokenUsage ⟨TokenCount.zero, TokenCount.zero, none, none, false⟩
  | some total, some usage =>
    let total := { total with inputTokens := ← addTokens total.inputTokens usage.inputTokens }
    setTokenUsage total
    let total := { total with outputTokens := ← addTokens total.outputTokens usage.outputTokens }
    setTokenUsage total
    let total := { total with
      cacheReadInputTokens :=
        ← addOptionalTokens total.cacheReadInputTokens usage.cacheReadInputTokens }
    setTokenUsage total
    let total := { total with
      cacheCreationInputTokens :=
        ← addOptionalTokens total.cacheCreationInputTokens usage.cacheCreationInputTokens }
    setTokenUsage total
  | some total, none => setTokenUsage { total with complete := false }

/-- `require_active_execution`. -/
def requireActiveExecution (execution : ExecutionId) : Mutation Unit := do
  match OrdMap.get? (← get).executions execution with
  | some node =>
    if node.isActive then pure ()
    else throw (.invalidEvent "token usage references a settled execution")
  | none => throw (.invalidEvent "token usage references an unknown execution")

/-- `apply_token_usage`. -/
def applyTokenUsage (execution : ExecutionId) (usage : Option TokenUsageDelta) :
    Mutation Unit := do
  requireActiveExecution execution
  addUsage usage

/-! ## Completion -/

/-- `apply_primary_graph_completed`. -/
def applyPrimaryGraphCompleted (result : TerminalResult) (auxiliaryPending : Bool)
    (deliveryExecution : Option ExecutionId) : Mutation Unit := do
  require (fun snapshot => snapshot.phase = .running || snapshot.phase = .stopping)
    "primary graph has not started"
  require (fun snapshot => snapshot.primaryGraph.isNone) "primary graph already completed"
  require (fun snapshot => snapshot.activeExecutions.isEmpty)
    "primary graph still has active executions"
  require (fun snapshot =>
      deliveryExecution.all fun execution => (snapshot.executionOutput execution).isSome)
    "delivery evidence references no completed verifier"
  modify fun snapshot =>
    { snapshot with primaryGraph := some ⟨result, auxiliaryPending, deliveryExecution⟩ }

/-- `apply_force_stop`. -/
def applyForceStop : Mutation Unit := do
  require (fun snapshot => !snapshot.forceStopRequested) "force-stop was already requested"
  modify fun snapshot => { snapshot with forceStopRequested := true, phase := .stopping }

/-- `apply_terminal`. -/
def applyTerminal (result : TerminalResult) : Mutation Unit := do
  require (fun snapshot => snapshot.activeExecutions.isEmpty) "cannot finish with active executions"
  modify fun snapshot =>
    { snapshot with
      primaryGraph := snapshot.primaryGraph.map fun primary =>
        { primary with auxiliaryPending := false }
      terminal := some result
      phase := .finished }

/-! ## Events -/

/-- `apply_event_kind`. -/
def applyEventKind (wire : Wire) (event : RunEvent) (sequence : Nat) : Mutation Unit :=
  match event with
  | .priorExecution execution => applyPriorExecution execution
  | .runStarted => applyRunStarted
  | .nodeStarted reference occurrence attempt input =>
    applyNodeStarted reference occurrence attempt input sequence
  | .nodeCompleted completion => applyNodeCompleted completion sequence
  | .executionVoided reference reason => applyExecutionVoided reference reason sequence
  | .safeLog execution _ stream line diagnostic =>
    applySafeLog wire execution stream line diagnostic sequence
  | .tokenUsageObserved execution usage => applyTokenUsage execution usage
  | .runTokenUsageObserved usage => addUsage usage
  | .primaryGraphCompleted result auxiliaryPending deliveryExecution =>
    applyPrimaryGraphCompleted result auxiliaryPending deliveryExecution
  | .forceStopRequested => applyForceStop
  | .terminal result => applyTerminal result

/-- `validate_event(event)?`. -/
def requireBounded (wire : Wire) (event : RunEvent) : Mutation Unit :=
  if validateEvent wire event then pure () else throw .eventTooLarge

/-- `apply_event`. -/
def applyEvent (wire : Wire) (event : RunEvent) (sequence : Nat) : Mutation Unit := do
  require (fun snapshot => snapshot.terminal.isNone) "run is already terminal"
  requireBounded wire event
  applyEventKind wire event sequence
  modify fun snapshot => { snapshot with cursor := cursorFor sequence }

/-! ## Initial snapshots -/

/-- `RunSnapshot::empty`. -/
def RunSnapshot.empty (runId : RunId) (title : String) (source : Option ResolvedSource)
    (size : RunSize) : RunSnapshot where
  runId := runId
  title := title
  source := source
  size := size
  cursor := initialCursor
  phase := .admitted
  forceStopRequested := false
  executions := []
  executionSeed := []
  primaryGraph := none
  terminal := none
  tokenUsage := none
  failureContext := none

/-- `RunSnapshot::admitted`. -/
def RunSnapshot.ofAdmitted {Program : Type} (runId : RunId) (admitted : AdmittedRun Program) :
    RunSnapshot :=
  .empty runId admitted.title admitted.source admitted.size

/-- `RunSnapshot::replay_seed`. -/
def RunSnapshot.replaySeed (snapshot : RunSnapshot) : RunSnapshot :=
  .empty snapshot.runId snapshot.title snapshot.source snapshot.size

end Zeroshot.Ledger
