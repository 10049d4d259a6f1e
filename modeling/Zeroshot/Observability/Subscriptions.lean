import Zeroshot.Lib.Machine
import Zeroshot.Lib.Selection
import Zeroshot.Ledger.Pages
import Zeroshot.Observability.Projection

set_option autoImplicit false

/-!
# Durable watch and log subscriptions

A durable subscription reads the ledger page after page from the cursor it has scanned through, and
queues one notification for each event it is about. The watch folds every event of the run into its
own projection, also those before the cursor the client starts from, so that each notification shows
the status at its own cursor; the log stream starts reading at the client's cursor and names
executions through the snapshot that came with the page, which may be newer.

`Observer` is what the two have in common. A run of `observationStep` interleaves appends to the
ledger, reports about the runtime, the reads of the subscription and what is done with them, and
reconnects of the client from the cursor of the last notification it received.
-/

namespace Zeroshot.Observability

open Ledger Machine

/-! ## Subscriptions -/

structure RunWatchEventNotification where
  subscriptionId : String
  runId : RunId
  title : String
  source : Option ResolvedSource
  size : RunSize
  cursor : Cursor
  status : RunStatus
  deriving DecidableEq, Repr

/-- `RunWatchSubscription` without the part it shares with the log stream. -/
structure WatchScan where
  subscriptionId : String
  after : Nat
  projection : RunSnapshot
  deriving DecidableEq, Repr

/-- `RunLogsSubscription` without the part it shares with the watch. -/
structure LogsScan where
  subscriptionId : String
  execution : Option ExecutionId
  deriving DecidableEq, Repr

/-- What a subscription has scanned, and the notifications it has not handed out. -/
structure DurableSubscription (Scan Note : Type) where
  scan : Scan
  scannedThrough : Cursor
  pending : List Note

/-- An error of the ledger, as an observation error. -/
def fromLedger {α : Type} : Except RunLedgerError α → Except ObservationError α
  | .ok a => .ok a
  | .error error => .error (.ledger error)

/-- `apply_event(projection, event, sequence)?`. -/
def project (wire : Wire) (event : RunEvent) (sequence : Nat) (projection : RunSnapshot) :
    Except ObservationError RunSnapshot :=
  match applyEvent wire event sequence projection with
  | .ok _ projection => .ok projection
  | .error error _ => .error (.ledger error)

/-- `WatchFold::apply`: the scan after some events, and the notifications they make. -/
def watchFold (wire : Wire) : WatchScan → List StoredRunEvent →
    Except ObservationError (WatchScan × List RunWatchEventNotification)
  | scan, [] => .ok (scan, [])
  | scan, stored :: events => do
    let sequence ← fromLedger (cursorSequence stored.cursor)
    let projection ← project wire stored.event sequence scan.projection
    let scan := { scan with projection }
    if scan.after < sequence && changesPublicStatus stored.event then
      let status ← statusFromSnapshot wire projection
      let (last, notifications) ← watchFold wire scan events
      .ok (last, ⟨scan.subscriptionId, projection.runId, projection.title, projection.source,
        projection.size, stored.cursor, status⟩ :: notifications)
    else watchFold wire scan events

/-- The loop of `RunLogsSubscription::refresh`. -/
def logsFold (wire : Wire) (snapshot : RunSnapshot) (scan : LogsScan) :
    List StoredRunEvent → Except ObservationError (List RunLogEventNotification)
  | [] => .ok []
  | stored :: events => do
    let notification ← logNotification wire scan.subscriptionId snapshot scan.execution stored
    let notifications ← logsFold wire snapshot scan events
    .ok (notification.toList ++ notifications)

/-- What sets a kind of subscription apart: where it starts to read, what it starts with, and what
it makes of a page. -/
structure Observer (Scan Note : Type) where
  kind : String
  readFrom : Cursor → Option Cursor
  begin : String → Cursor → RunSnapshot → Except ObservationError Scan
  scan : Scan → SnapshotAndTail → Except ObservationError (Scan × List Note)

/-- The watch reads from the start of the run. -/
def watchObserver (wire : Wire) : Observer WatchScan RunWatchEventNotification where
  kind := "watch"
  readFrom _ := none
  begin subscriptionId start snapshot := do
    let after ← fromLedger (cursorSequence start)
    let current ← fromLedger (cursorSequence snapshot.cursor)
    if current < after then .error (.ledger .cursorAhead)
    else .ok ⟨subscriptionId, after, snapshot.replaySeed⟩
  scan scan tail := watchFold wire scan tail.events

/-- The log stream reads from the client's cursor. -/
def logsObserver (wire : Wire) (selector : Option String) :
    Observer LogsScan RunLogEventNotification where
  kind := "logs"
  readFrom start := some start
  begin subscriptionId _ snapshot :=
    match selector with
    | none => .ok ⟨subscriptionId, none⟩
    | some selector => do
      let execution ← resolvePublicExecution wire snapshot selector
      .ok ⟨subscriptionId, some execution⟩
  scan scan tail := do
    let notifications ← logsFold wire tail.snapshot scan tail.events
    .ok (scan, notifications)

section

variable {Scan Note : Type} (wire : Wire) (observer : Observer Scan Note)

/-- `watch` and `logs`, on what they read. -/
def Observer.establish (subscriptionId : String) (start : Cursor) (tail : SnapshotAndTail) :
    Except ObservationError (DurableSubscription Scan Note) := do
  let _ ← statusFromSnapshot wire tail.snapshot
  let scan ← observer.begin subscriptionId start tail.snapshot
  let (scan, pending) ← observer.scan scan tail
  let scannedThrough := tail.events.getLast?.elim
    ((observer.readFrom start).getD initialCursor) StoredRunEvent.cursor
  .ok ⟨scan, scannedThrough, pending⟩

/-- `refresh` and `replay_progress`, on what was read: the subscription, and whether it has read to
the end of a finished run. `failed` is what the runtime observation reports. -/
def Observer.refresh (failed : Bool) (subscription : DurableSubscription Scan Note)
    (tail : SnapshotAndTail) :
    Except ObservationError (DurableSubscription Scan Note × Bool) := do
  let (scan, notifications) ← observer.scan subscription.scan tail
  let scannedThrough := tail.events.getLast?.elim subscription.scannedThrough StoredRunEvent.cursor
  let _ ← statusFromSnapshot wire tail.snapshot
  let caughtUp := decide (scannedThrough = tail.snapshot.cursor)
  .ok (⟨scan, scannedThrough, subscription.pending ++ notifications⟩,
    (tail.snapshot.terminal.isSome || failed) && caughtUp)

/-! ## A ledger, a subscription and its client -/

/-- The stored events with their snapshot, the subscription, a read it has not dealt with, what the
client has received, and whether `recv` has returned `None` while the runtime was not reported as
failed, or an error. -/
structure Observation (Scan Note : Type) where
  events : List StoredRunEvent
  snapshot : RunSnapshot
  failed : Bool
  minted : Nat
  subscription : Option (DurableSubscription Scan Note)
  fetched : Option SnapshotAndTail
  delivered : List Note
  ended : Bool
  faulted : Bool

inductive ObservationEvent
  /-- A batch is appended to the ledger. -/
  | append (batch : List RunEvent)
  /-- The runtime is reported as failed, or no longer. -/
  | report (failed : Bool)
  /-- The client subscribes, or subscribes again from the last notification it received. -/
  | connect (limit : Nat)
  /-- `recv` or `read_available` reads the ledger. -/
  | fetch (limit : Nat)
  /-- The future is dropped before it deals with what it read. -/
  | abandon
  /-- The rest of `refresh`. -/
  | resume
  /-- `recv` returns the first pending notification. -/
  | receive
  /-- `read_available` returns all pending notifications. -/
  | drain
  deriving DecidableEq, Repr

/-- `snapshot_and_tail` with a page of the given size. -/
def readTail (events : List StoredRunEvent) (snapshot : RunSnapshot) (after : Option Cursor)
    (limit : Nat) : Except RunLedgerError SnapshotAndTail := do
  let k ← FakeRunLedger.requested after
  if events.length < k then .error .cursorAhead
  else .ok ⟨snapshot, (events.drop k).take limit⟩

variable (cursorOf : Note → Cursor)

/-- The cursor a client subscribes from. -/
def Observation.resumeFrom (start : Cursor) (s : Observation Scan Note) : Cursor :=
  s.delivered.getLast?.elim start cursorOf

/-- A subscription from a cursor, when it is not refused. -/
def Observation.connect (start : Cursor) (limit : Nat) (s : Observation Scan Note) :
    Except ObservationError (DurableSubscription Scan Note) := do
  let tail ← fromLedger (readTail s.events s.snapshot (observer.readFrom start) limit)
  observer.establish wire ("v2-" ++ observer.kind ++ "-" ++ toString s.minted) start tail

/-- One step of the ledger, the runtime, the subscription or the client. -/
def observationStep (start : Cursor) :
    ObservationEvent → Observation Scan Note → Option (Observation Scan Note)
  | .append batch, s =>
    if batch.isEmpty then none
    else
      match appendLoop wire FakeRunLedger.nextSequence s.snapshot s.events.length batch with
      | .ok (snapshot, _, stored) => some { s with events := s.events ++ stored, snapshot }
      | .error _ => none
  | .report failed, s => some { s with failed }
  | .connect limit, s =>
    match s.connect wire observer (s.resumeFrom cursorOf start) limit with
    | .ok subscription => some { s with
        minted := s.minted + 1
        subscription := some subscription
        fetched := none }
    | .error _ => none
  | .fetch limit, s =>
    s.subscription.bind fun subscription =>
      if subscription.pending.isEmpty && s.fetched.isNone then
        match readTail s.events s.snapshot (some subscription.scannedThrough) limit with
        | .ok tail => some { s with fetched := some tail }
        | .error _ => some { s with faulted := true }
      else none
  | .abandon, s => some { s with fetched := none }
  | .resume, s =>
    s.subscription.bind fun subscription =>
      s.fetched.bind fun tail =>
        match observer.refresh wire s.failed subscription tail with
        | .ok (subscription, finished) => some { s with
            subscription := some subscription
            fetched := none
            ended := s.ended || (subscription.pending.isEmpty && finished && !s.failed) }
        | .error _ => some { s with fetched := none, faulted := true }
  | .receive, s =>
    s.subscription.bind fun subscription =>
      match subscription.pending with
      | [] => none
      | notification :: pending => some { s with
          subscription := some { subscription with pending }
          delivered := s.delivered ++ [notification] }
  | .drain, s =>
    s.subscription.map fun subscription => { s with
      subscription := some { subscription with pending := [] }
      delivered := s.delivered ++ subscription.pending }

/-- An admitted run without events, and no subscription. -/
def Observation.initial (seed : RunSnapshot) : Observation Scan Note :=
  ⟨[], seed, false, 1, none, none, [], false, false⟩

end

end Zeroshot.Observability
