import Zeroshot.Ledger.Port

set_option autoImplicit false

/-!
# The in-memory ledger

`FakeRunLedger`: runs and submissions in two maps. Every call works under the lock, so it is one
step; an append works on a copy of the snapshot and stores it when the whole batch is accepted.

Appends number their events with `next`, which is `checked_add` here. The calls are written for any
`next`, so that the durable adapter, which numbers with `i64`, can be compared with them.
-/

namespace Zeroshot.Ledger

variable {Program : Type}

structure FakeRun (Program : Type) where
  stored : StoredRun Program
  events : List StoredRunEvent

structure FakeRunLedger (Program : Type) where
  runs : OrdMap RunId (FakeRun Program)
  submissions : OrdMap SubmissionKey RunId

namespace FakeRunLedger

def empty : FakeRunLedger Program := ⟨[], []⟩

/-- `create_or_get`. -/
def createOrGet [DecidableEq Program] (codec : Codec Program) (request : CreateRun Program)
    (state : FakeRunLedger Program) :
    Except RunLedgerError (CreateRunOutcome Program) × FakeRunLedger Program :=
  if !validateCreate codec request then (.error .admittedRunTooLarge, state)
  else
    match OrdMap.get? state.submissions request.submissionKey with
    | some existingId =>
      match OrdMap.get? state.runs existingId with
      | none => (.error .corrupt, state)
      | some run =>
        if run.stored.submissionDigest = request.submissionDigest ∧
            run.stored.admitted = request.admitted then
          (.ok (.existing run.stored), state)
        else (.error (.submissionConflict existingId), state)
    | none =>
      if OrdMap.contains state.runs request.runId then (.error .runIdConflict, state)
      else
        (.ok (.created (newRun request)),
          ⟨OrdMap.insert request.runId ⟨newRun request, []⟩ state.runs,
            OrdMap.insert request.submissionKey request.runId state.submissions⟩)

/-- `get`. -/
def get (runId : RunId) (state : FakeRunLedger Program) : Option (StoredRun Program) :=
  (OrdMap.get? state.runs runId).map FakeRun.stored

/-- `get_by_submission_key`. -/
def getBySubmissionKey (key : SubmissionKey) (state : FakeRunLedger Program) :
    Option (StoredRun Program) :=
  (OrdMap.get? state.submissions key).bind fun runId => get runId state

/-- `sequence.checked_add(1)`. -/
def nextSequence (sequence : Nat) : Except RunLedgerError Nat :=
  if sequence + 1 < 2 ^ 64 then .ok (sequence + 1) else .error .storage

/-- `append_locked`: what it returns, and the run it leaves. -/
def appendLocked (wire : Wire) (next : Nat → Except RunLedgerError Nat) (run : FakeRun Program)
    (events : List RunEvent) : Except RunLedgerError (AppendResult × FakeRun Program) :=
  if events.isEmpty then .error (.invalidEvent "event batch is empty")
  else do
    let sequence ← cursorSequence run.stored.snapshot.cursor
    let (snapshot, _, stored) ← appendLoop wire next run.stored.snapshot sequence events
    .ok (⟨snapshot, stored⟩, ⟨{ run.stored with snapshot }, run.events ++ stored⟩)

/-- Work on a run under the lock. -/
def withRun (runId : RunId) (state : FakeRunLedger Program)
    (operation : FakeRun Program → Except RunLedgerError (AppendResult × FakeRun Program)) :
    Except RunLedgerError AppendResult × FakeRunLedger Program :=
  match OrdMap.get? state.runs runId with
  | none => (.error .runNotFound, state)
  | some run =>
    match operation run with
    | .error error => (.error error, state)
    | .ok (result, run) => (.ok result, { state with runs := OrdMap.insert runId run state.runs })

/-- `append`. -/
def append (codec : Codec Program) (next : Nat → Except RunLedgerError Nat) (runId : RunId)
    (events : List RunEvent) (state : FakeRunLedger Program) :
    Except RunLedgerError AppendResult × FakeRunLedger Program :=
  withRun runId state fun run => appendLocked codec.wire next run events

/-- `request_force_stop`: nothing to do when the run is stopping or over. -/
def requestForceStop (codec : Codec Program) (next : Nat → Except RunLedgerError Nat)
    (runId : RunId) (state : FakeRunLedger Program) :
    Except RunLedgerError AppendResult × FakeRunLedger Program :=
  withRun runId state fun run =>
    if run.stored.snapshot.forceStopRequested || run.stored.snapshot.terminal.isSome then
      .ok (⟨run.stored.snapshot, []⟩, run)
    else appendLocked codec.wire next run [.forceStopRequested]

/-- The events that fit one page, after `rawBytes` are used. -/
def fillPage (wire : Wire) : List StoredRunEvent → Nat →
    Except RunLedgerError (List StoredRunEvent)
  | [], _ => .ok []
  | stored :: events, rawBytes =>
    match wire.eventBytes stored.event with
    | none => .error .corrupt
    | some bytes =>
      if maxReplayBytes < rawBytes + bytes then .ok []
      else do
        let page ← fillPage wire events (rawBytes + bytes)
        .ok (stored :: page)

/-- `replay_page`. -/
def replayPage (wire : Wire) (events : List StoredRunEvent) (after : Nat) :
    Except RunLedgerError (List StoredRunEvent) :=
  fillPage wire ((events.drop after).take maxReplayEvents) 0

/-- `snapshot_and_tail`. -/
def snapshotAndTail (codec : Codec Program) (runId : RunId) (after : Option Cursor)
    (state : FakeRunLedger Program) : Except RunLedgerError SnapshotAndTail :=
  match OrdMap.get? state.runs runId with
  | none => .error .runNotFound
  | some run => do
    let after ← after.elim (.ok 0) cursorSequence
    let current ← cursorSequence run.stored.snapshot.cursor
    if current < after then .error .cursorAhead
    else
      let events ← replayPage codec.wire run.events after
      .ok ⟨run.stored.snapshot, events⟩

/-- The calls, with the numbering `next`. -/
def stepWith [DecidableEq Program] (codec : Codec Program)
    (next : Nat → Except RunLedgerError Nat) (call : Call Program)
    (state : FakeRunLedger Program) : Outcome Program (FakeRunLedger Program) :=
  match call with
  | .createOrGet request =>
    let outcome := createOrGet codec request state
    (outcome.1.map .created, outcome.2)
  | .get runId => (.ok (.found (get runId state)), state)
  | .getBySubmissionKey key => (.ok (.found (getBySubmissionKey key state)), state)
  | .append runId events =>
    let outcome := append codec next runId events state
    (outcome.1.map .appended, outcome.2)
  | .requestForceStop runId =>
    let outcome := requestForceStop codec next runId state
    (outcome.1.map .appended, outcome.2)
  | .snapshotAndTail runId after => ((snapshotAndTail codec runId after state).map .page, state)

/-- The adapter. -/
def step [DecidableEq Program] (codec : Codec Program) :
    Call Program → FakeRunLedger Program → Outcome Program (FakeRunLedger Program) :=
  stepWith codec nextSequence

end FakeRunLedger

end Zeroshot.Ledger
