import Zeroshot.Ledger.Replay
import Zeroshot.Lib.Machine
import Zeroshot.Lib.Stamped
import Zeroshot.Reducer.Trace
import Zeroshot.Supervisor.History

set_option autoImplicit false

/-!
# Control history

The control activity of a run is derived from its events by a replay (`ControlReplay`): every event
is applied to a snapshot, lifecycle events are reduced with a trace, and what changes becomes a
record stamped with the sequence of the event. The replay has global budgets; an event that exceeds
one, or that cannot be projected, leaves its records so far and stops the replay for good.

`ControlCache` keeps the replays of the runs asked for last and advances them as requests need it,
page by page of the ledger. A replay is dropped on a ledger error and when another run takes its
place.

* `replayTo_page`: a replay that went further gives the page of one that stopped at the range's end.
* `readRange_inside`: a history page asks for a range inside the stored history.
* `control_history_stable`: over any calls of the ledger and requests within the stored histories,
  every page a request returns is that of a fresh replay; the pages of consecutive ranges are the
  page of both, and an error shows from one event on, whatever the range.
-/

namespace Zeroshot.Control

open Ledger

/-! ## Records -/

/-- `PROJECTION_FAILED` and `PROJECTION_LIMIT`. -/
inductive ProjectionError
  | failed
  | limit
  deriving DecidableEq, Repr

def ProjectionError.asStr : ProjectionError → String
  | failed => "control_projection_unavailable"
  | limit => "control_projection_limit"

/-- The states of a control record. -/
inductive ControlState
  | entered
  | completed
  | succeeded
  | failed
  | stopped
  deriving DecidableEq, Repr

structure ControlRecord where
  cursor : Cursor
  node : String
  mapIndices : List Nat
  visitId : String
  state : ControlState
  branch : Option String
  detail : Option String
  output : Option Value
  deriving DecidableEq, Repr

/-- `ControlRecord::same_value`: all but the cursor. -/
def ControlRecord.sameValue (record other : ControlRecord) : Bool :=
  record.node = other.node && record.mapIndices = other.mapIndices &&
    record.visitId = other.visitId && record.state = other.state &&
    record.branch = other.branch && record.detail = other.detail && record.output = other.output

/-- What the projection takes from outside: the graph and input of an admitted program, and the
texts and lengths serde_json gives. -/
structure Encoding (Program : Type) where
  root : Program → GraphNode
  initialInput : Program → Value
  /-- The JSON length of a value in a trace. -/
  textLength : Value → Nat
  /-- The JSON of a node with its map indices and loop iterations. -/
  visitId : NodeName → List Nat → List Nat → Option String
  eventBytes : StoredRunEvent → Option Nat
  recordBytes : ControlRecord → Option Nat

def stateOf : StructuralTraceState → ControlState
  | .entered => .entered
  | .completed => .completed
  | .succeeded => .succeeded
  | .failed => .failed

/-- `ControlRecord::from_trace`. -/
def ControlRecord.fromTrace {Program : Type} (encoding : Encoding Program)
    (trace : StructuralTrace) (cursor : Cursor) : Option ControlRecord :=
  (encoding.visitId trace.node trace.mapIndices trace.loopIterations).map fun visitId =>
    { cursor
      node := trace.node.asStr
      mapIndices := trace.mapIndices
      visitId
      state := stateOf trace.state
      branch := trace.branch.map (·.asStr)
      detail := trace.detail
      output := trace.output }

structure ControlPage where
  records : List ControlRecord
  error : Option String
  deriving DecidableEq, Repr

/-! ## The replay -/

def maxCachedRuns : Nat := 4

/-- `MAX_REPLAY_EVENTS` of the projection. -/
def maxControlEvents : Nat := 100000

/-- `MAX_REPLAY_BYTES` of the projection. -/
def maxSourceBytes : Nat := 64 * 1024 * 1024

def maxLifecycleReductions : Nat := 2048

def maxReducerEvaluations : Nat := 2000000

def maxControlRecords : Nat := 16384

def maxControlBytes : Nat := 4 * 1024 * 1024

structure ControlReplay (Program : Type) where
  admitted : AdmittedRun Program
  snapshot : RunSnapshot
  sequence : Nat
  current : OrdMap String ControlRecord
  updates : List (Nat × ControlRecord)
  error : Option (Nat × ProjectionError)
  scanned : Nat
  sourceBytes : Nat
  reductions : Nat
  controlBytes : Nat
  evaluations : Nat

/-- A step of the projection: it changes the replay in place, and may fail on the way. -/
abbrev Projection (Program : Type) := EStateM ProjectionError (ControlReplay Program)

/-- `usize::saturating_add`. -/
def saturatingAdd (left right : Nat) : Nat := min (left + right) (2 ^ 64 - 1)

namespace ControlReplay

variable {Program : Type}

/-- `ControlReplay::new`. -/
def new (stored : StoredRun Program) : ControlReplay Program where
  admitted := stored.admitted
  snapshot := stored.snapshot.replaySeed
  sequence := 0
  current := []
  updates := []
  error := none
  scanned := 0
  sourceBytes := 0
  reductions := 0
  controlBytes := 0
  evaluations := 0

/-- `ControlReplay::fail`. -/
def fail (reason : ProjectionError) (replay : ControlReplay Program) : ControlReplay Program :=
  { replay with error := some (replay.sequence, reason) }

/-- The value, or `PROJECTION_FAILED`. -/
def orFailed {α : Type} : Option α → Projection Program α
  | some value => pure value
  | none => throw .failed

/-- `PROJECTION_LIMIT` when the replay exceeds a bound. -/
def within (bounded : ControlReplay Program → Bool) : Projection Program Unit := do
  if bounded (← get) then pure () else throw .limit

variable (encoding : Encoding Program)

/-- The part of `record` that keeps a changed record. -/
def keep (record : ControlRecord) (bytes : Nat) (replay : ControlReplay Program) :
    ControlReplay Program :=
  { replay with
    controlBytes := replay.controlBytes + bytes
    current := OrdMap.insert record.visitId record replay.current
    updates := replay.updates ++ [(replay.sequence, record)] }

/-- `ControlReplay::record`. -/
def record (record : ControlRecord) : Projection Program Unit := do
  if (OrdMap.get? (← get).current record.visitId).any fun existing => existing.sameValue record then
    pure ()
  else
    let bytes ← orFailed (encoding.recordBytes record)
    within fun replay => replay.updates.length < maxControlRecords &&
      saturatingAdd replay.controlBytes bytes ≤ maxControlBytes
    modify (keep record bytes)

/-- Record every record of a list. -/
def recordAll : List ControlRecord → Projection Program Unit
  | [] => pure ()
  | first :: records => do
    record encoding first
    recordAll records

/-- `ControlReplay::stop_pending`; without `present` every entered visit is stopped. -/
def stopPending (present : Option (OrdSet String)) : Projection Program Unit := do
  let replay ← get
  let stopped := (OrdMap.values replay.current).filter fun record =>
    record.state = .entered && !present.any fun ids => OrdSet.contains ids record.visitId
  recordAll encoding (stopped.map fun record =>
    { record with cursor := replay.snapshot.cursor, state := .stopped })

/-- The records of a trace, in turn; the visits that are present. -/
def recordTrace : List StructuralTrace → OrdSet String → Projection Program (OrdSet String)
  | [], present => pure present
  | trace :: traces, present => do
    let replay ← get
    let made ← orFailed (ControlRecord.fromTrace encoding trace replay.snapshot.cursor)
    record encoding made
    recordTrace traces (OrdSet.insert made.visitId present)

/-- `next_node_instance` and `next_execution` are 64-bit numbers. -/
def identitiesFit (executions : List DurableExecution) : Bool :=
  nextNodeInstance executions < 2 ^ 64 && nextExecution executions < 2 ^ 64

/-- The traced reduction of `reduce`. -/
def traced (replay : ControlReplay Program) : Except ProjectionError TracedReduction :=
  match Supervisor.durableHistory replay.snapshot with
  | .error _ => .error .failed
  | .ok executions =>
    if !identitiesFit executions then .error .failed
    else
      match reduceWithTrace encoding.textLength .nativeV2 (encoding.root replay.admitted.program)
          (runInput (encoding.initialInput replay.admitted.program) executions) with
      | .error .traceLimit => .error .limit
      | .error _ => .error .failed
      | .ok reduction => .ok reduction

/-- `ControlReplay::reduce`. -/
def reduce : Projection Program Unit := do
  modify fun replay => { replay with reductions := replay.reductions + 1 }
  within fun replay => replay.reductions ≤ maxLifecycleReductions
  match traced encoding (← get) with
  | .error reason => throw reason
  | .ok reduction =>
    modify fun replay =>
      { replay with evaluations := saturatingAdd replay.evaluations reduction.evaluations }
    within fun replay => replay.evaluations ≤ maxReducerEvaluations
    let present ← recordTrace encoding reduction.trace []
    stopPending encoding (some present)

/-- The lifecycle events of `project_event`. -/
def projectLifecycle : Projection Program Unit := do
  let snapshot := (← get).snapshot
  if snapshot.forceStopRequested then pure ()
  else if snapshot.phase = .running then reduce encoding
  else pure ()

/-- `ControlReplay::project_event`. -/
def projectEvent (event : Ledger.RunEvent) : Projection Program Unit :=
  match event with
  | .safeLog .. | .tokenUsageObserved .. | .runTokenUsageObserved .. | .primaryGraphCompleted .. =>
    pure ()
  | .forceStopRequested | .terminal .. => stopPending encoding none
  | _ => projectLifecycle encoding

/-- `apply_event` on the snapshot of the replay, which it may leave half changed. -/
def applySnapshot (wire : Wire) (event : Ledger.RunEvent) (sequence : Nat) :
    Projection Program Unit := do
  match Ledger.applyEvent wire event sequence (← get).snapshot with
  | .ok _ snapshot => modify fun replay => { replay with snapshot }
  | .error _ snapshot =>
    modify fun replay => { replay with snapshot }
    throw .failed

/-- `ControlReplay::apply`, once the event is known to be the next one. -/
def applyNext (wire : Wire) (stored : StoredRunEvent) (sequence : Nat) :
    Projection Program Unit := do
  modify fun replay => { replay with sequence, scanned := replay.scanned + 1 }
  let bytes ← orFailed (encoding.eventBytes stored)
  modify fun replay => { replay with sourceBytes := saturatingAdd replay.sourceBytes bytes }
  within fun replay =>
    replay.scanned ≤ maxControlEvents && replay.sourceBytes ≤ maxSourceBytes
  applySnapshot wire stored.event sequence
  projectEvent encoding stored.event

/-- `ControlReplay::apply`. -/
def apply (wire : Wire) (stored : StoredRunEvent) : Projection Program Unit := do
  let sequence ← orFailed (cursorSequence stored.cursor).toOption
  if sequence ≠ (← get).sequence + 1 then throw .failed
  else applyNext encoding wire stored sequence

/-- `ControlReplay::advance`. -/
def advance (wire : Wire) : List StoredRunEvent → ControlReplay Program → ControlReplay Program
  | [], replay => replay
  | stored :: events, replay =>
    match apply encoding wire stored replay with
    | .ok _ replay => advance wire events replay
    | .error reason replay => replay.fail reason

/-- `ControlReplay::page`. -/
def page (replay : ControlReplay Program) (start stop : Nat) : ControlPage where
  records := stampedBetween start stop replay.updates
  error := (replay.error.filter fun entry => entry.1 ≤ stop).map fun entry => entry.2.asStr

end ControlReplay

/-! ## The cache -/

section Cache

variable {Program : Type}

/-- `MAX_CACHED_RUNS` entries at most, the one used last at the end. -/
abbrev ControlCache (Program : Type) := List (RunId × Option (ControlReplay Program))

/-- `ControlCache::entry`: the replay found for the run, and the other entries; the entry of the run
goes to their end. -/
def entry (id : RunId) (runs : ControlCache Program) :
    Option (ControlReplay Program) × ControlCache Program :=
  match runs.find? fun existing => existing.1 = id with
  | some found => (found.2, runs.eraseP fun existing => existing.1 = id)
  | none => (none, if maxCachedRuns ≤ runs.length then runs.tail else runs)

/-- A request, with what the ledger answers: whether `get` succeeds, and for every call of
`snapshot_and_tail` an error or a page of at most so many events more than one. A request whose
answers are over is dropped while it waits. -/
structure Request where
  runId : RunId
  start : Nat
  stop : Nat
  get : Bool
  tails : List (Option Nat)

/-- `snapshot_and_tail`: a page of the journal after a cursor. -/
def tailAfter (events : List StoredRunEvent) (size : Nat) (after : Cursor) :
    Except RunLedgerError (List StoredRunEvent) := do
  let sequence ← cursorSequence after
  if events.length < sequence then .error .cursorAhead
  else .ok ((events.drop sequence).take (size + 1))

/-- How a request ends: with a page, with the page of a ledger error, or dropped. -/
inductive Answer
  | page (page : ControlPage)
  | ledgerError (page : ControlPage)
  | dropped
  deriving DecidableEq, Repr

/-- How the loop of `project_inner` ends. -/
inductive Driven (Program : Type)
  | reached (replay : ControlReplay Program)
  | ledgerError
  | dropped

variable (encoding : Encoding Program) (wire : Wire)

/-- The events of a page up to the end of the range. -/
def upTo (stop : Nat) (page : List StoredRunEvent) : List StoredRunEvent :=
  page.takeWhile fun stored =>
    match cursorSequence stored.cursor with
    | .ok sequence => sequence ≤ stop
    | .error _ => false

/-- The loop of `project_inner` goes on. -/
def pending (stop : Nat) (replay : ControlReplay Program) : Bool :=
  replay.sequence < stop && replay.error.isNone

/-- The loop of `project_inner`. -/
def drive (events : List StoredRunEvent) (stop : Nat) :
    List (Option Nat) → ControlReplay Program → Driven Program
  | [], replay => if pending stop replay then .dropped else .reached replay
  | tail :: tails, replay =>
    if pending stop replay then
      match tail with
      | none => .ledgerError
      | some size =>
        match tailAfter events size replay.snapshot.cursor with
        | .error _ => .ledgerError
        | .ok page =>
          if upTo stop page = [] then .reached (replay.fail .failed)
          else drive events stop tails (replay.advance encoding wire (upTo stop page))
    else .reached replay

/-- The page of an error of `project_inner`. -/
def failedPage : ControlPage := ⟨[], some ProjectionError.failed.asStr⟩

/-- The end of `project_inner`: the replay goes back into its entry, or the entry stays empty. -/
def settle (request : Request) (others : ControlCache Program) :
    Driven Program → Answer × ControlCache Program
  | .reached replay =>
    (.page (replay.page request.start request.stop), others ++ [(request.runId, some replay)])
  | .ledgerError => (.ledgerError failedPage, others ++ [(request.runId, none)])
  | .dropped => (.dropped, others ++ [(request.runId, none)])

/-- `ControlCache::project`. -/
def project (ledger : FakeRunLedger Program) (request : Request) (runs : ControlCache Program) :
    Answer × ControlCache Program :=
  let (cached, others) := entry request.runId runs
  let events := ((OrdMap.get? ledger.runs request.runId).map FakeRun.events).getD []
  match cached with
  | some replay =>
    settle request others (drive encoding wire events request.stop request.tails replay)
  | none =>
    if !request.get then settle request others .ledgerError
    else
      match FakeRunLedger.get request.runId ledger with
      | none => (.page failedPage, others ++ [(request.runId, none)])
      | some stored =>
        settle request others (drive encoding wire events request.stop request.tails (.new stored))

end Cache

/-! ## History pages -/

section Pages

variable {Encoded : Type}

/-- `HistoryError`, by its code. -/
inductive HistoryError
  | runNotFound
  | historyUnavailable
  | historyGap
  | invalidCursor
  deriving DecidableEq, Repr

/-- `ledger_error`. -/
def ledgerError : RunLedgerError → HistoryError
  | .runNotFound => .runNotFound
  | .invalidCursor | .cursorAhead => .invalidCursor
  | _ => .historyUnavailable

/-- The cursor's sequence, or its history error. -/
def historySequence (cursor : Cursor) : Except HistoryError Nat :=
  (cursorSequence cursor).mapError ledgerError

/-- The loop of `project_page`; `encode` is the JSON of a stored event with its references as
texts. -/
def projectFrom (encode : StoredRunEvent → Option Encoded) (head : Nat) :
    List StoredRunEvent → Cursor → Nat → Except HistoryError (List Encoded × Cursor × Nat)
  | [], next, sequence => .ok ([], next, sequence)
  | stored :: source, next, sequence => do
    let position ← historySequence stored.cursor
    if head < position then .ok ([], next, sequence)
    else if position ≠ sequence + 1 then .error .historyGap
    else
      match encode stored with
      | none => .error .historyUnavailable
      | some value => do
        let rest ← projectFrom encode head source stored.cursor position
        .ok (value :: rest.1, rest.2)

/-- `project_page`: the events, the next cursor and its sequence. -/
def projectPage (encode : StoredRunEvent → Option Encoded) (source : List StoredRunEvent)
    (after : Cursor) (head : Nat) : Except HistoryError (List Encoded × Cursor × Nat) := do
  let sequence ← historySequence after
  let page ← projectFrom encode head source after sequence
  if page.1.isEmpty && page.2.2 < head then .error .historyGap else .ok page

/-- `read_page`, up to the request it makes: from the sequence of the cursor to that of the last
event of the page. -/
def readRange {Program : Type} (codec : Codec Program) (encode : StoredRunEvent → Option Encoded)
    (ledger : FakeRunLedger Program) (id : RunId) (after : Cursor) :
    Except HistoryError (Nat × Nat) := do
  let start ← historySequence after
  let tail ← (FakeRunLedger.snapshotAndTail codec id (some after) ledger).mapError ledgerError
  let head ← historySequence tail.snapshot.cursor
  let page ← projectPage encode tail.events after head
  .ok (start, page.2.2)

end Pages

/-! ## The system -/

/-- A ledger and a cache of its control history. -/
structure System (Program : Type) where
  ledger : FakeRunLedger Program
  runs : ControlCache Program

/-- A call of the ledger or a request. -/
inductive Action (Program : Type)
  | ledger (call : Call Program)
  | project (request : Request)

section Runs

variable {Program : Type} [DecidableEq Program] (codec : Codec Program)
  (encoding : Encoding Program)

def System.initial : System Program := ⟨.empty, []⟩

/-- One step of the system. -/
def step : Action Program → System Program → Option (System Program)
  | .ledger call, s => some { s with ledger := (FakeRunLedger.step codec call s.ledger).2 }
  | .project request, s =>
    some { s with runs := (project encoding codec.wire s.ledger request s.runs).2 }

/-- The range of a request is inside the stored history of its run. -/
def Inside (request : Request) (ledger : FakeRunLedger Program) : Prop :=
  ∀ run, OrdMap.get? ledger.runs request.runId = some run → request.stop ≤ run.events.length

instance (request : Request) (ledger : FakeRunLedger Program) : Decidable (Inside request ledger) :=
  inferInstanceAs (Decidable (∀ run ∈ OrdMap.get? ledger.runs request.runId,
    request.stop ≤ run.events.length))

/-- The requests among the actions are inside the stored histories. -/
def Allowed : Action Program → System Program → Prop
  | .ledger _, _ => True
  | .project request, s => Inside request s.ledger

instance : ∀ (action : Action Program) (s : System Program), Decidable (Allowed action s)
  | .ledger _, _ => isTrue trivial
  | .project request, s => inferInstanceAs (Decidable (Inside request s.ledger))

/-- The replay of the first events of a run. -/
def replayTo (wire : Wire) (run : FakeRun Program) (n : Nat) : ControlReplay Program :=
  (ControlReplay.new run.stored).advance encoding wire (run.events.take n)

/-- The page of a fresh replay of the events up to the end of the range. -/
def freshPage (wire : Wire) (run : FakeRun Program) (start stop : Nat) : ControlPage :=
  (replayTo encoding wire run stop).page start stop

end Runs

/-! ## What a step of the projection changes -/

section Frame

variable {Program : Type} {encoding : Encoding Program}

namespace ControlReplay

/-- Only the budgets change, and updates of the current sequence are appended. -/
structure Stamps (before after : ControlReplay Program) : Prop where
  snapshot : after.snapshot = before.snapshot
  sequence : after.sequence = before.sequence
  error : after.error = before.error
  updates : ∃ new, after.updates = before.updates ++ new ∧ ∀ entry ∈ new, entry.1 = before.sequence

theorem Stamps.refl (replay : ControlReplay Program) : Stamps replay replay :=
  ⟨rfl, rfl, rfl, [], (List.append_nil _).symm, fun _ h => (by cases h)⟩

theorem Stamps.trans (first second third : ControlReplay Program) (h : Stamps first second)
    (h' : Stamps second third) : Stamps first third := by
  obtain ⟨new, hnew, hstamps⟩ := h.updates
  obtain ⟨more, hmore, hstamps'⟩ := h'.updates
  refine ⟨h'.snapshot.trans h.snapshot, h'.sequence.trans h.sequence, h'.error.trans h.error,
    new ++ more, ?_, fun entry hentry => ?_⟩
  · rw [hmore, hnew, List.append_assoc]
  · rcases List.mem_append.mp hentry with hentry | hentry
    · exact hstamps entry hentry
    · rw [hstamps' entry hentry, h.sequence]

theorem orFailed_stamps {α : Type} (value : Option α) :
    Frames Stamps (orFailed value : Projection Program α) := by
  cases value with
  | none => exact Frames.throw Stamps.refl _
  | some value => exact Frames.pure Stamps.refl _

theorem within_stamps (bounded : ControlReplay Program → Bool) :
    Frames Stamps (within bounded) := by
  refine Frames.bind Stamps.trans (Frames.get Stamps.refl) fun replay => ?_
  cases hbounded : bounded replay with
  | true => exact Frames.pure Stamps.refl _
  | false => exact Frames.throw Stamps.refl _

theorem keep_stamps (record : ControlRecord) (bytes : Nat) (replay : ControlReplay Program) :
    Stamps replay (keep record bytes replay) := by
  refine ⟨rfl, rfl, rfl, [(replay.sequence, record)], rfl, fun entry hentry => ?_⟩
  rw [List.mem_singleton.mp hentry]

theorem record_stamps (made : ControlRecord) : Frames Stamps (record encoding made) := by
  refine Frames.bind Stamps.trans (Frames.get Stamps.refl) fun replay => ?_
  split
  · exact Frames.pure Stamps.refl _
  · refine Frames.bind Stamps.trans (orFailed_stamps _) fun bytes => ?_
    exact Frames.bind Stamps.trans (within_stamps _) fun _ => Frames.modify (keep_stamps made bytes)

theorem recordAll_stamps (records : List ControlRecord) :
    Frames Stamps (recordAll encoding records) := by
  induction records with
  | nil => exact Frames.pure Stamps.refl _
  | cons first records ih => exact Frames.bind Stamps.trans (record_stamps first) fun _ => ih

theorem stopPending_stamps (present : Option (OrdSet String)) :
    Frames Stamps (stopPending encoding present) :=
  Frames.bind Stamps.trans (Frames.get Stamps.refl) fun _ => recordAll_stamps _

theorem recordTrace_stamps (traces : List StructuralTrace) (present : OrdSet String) :
    Frames Stamps (recordTrace encoding traces present) := by
  induction traces generalizing present with
  | nil => exact Frames.pure Stamps.refl _
  | cons trace traces ih =>
    refine Frames.bind Stamps.trans (Frames.get Stamps.refl) fun replay => ?_
    refine Frames.bind Stamps.trans (orFailed_stamps _) fun made => ?_
    exact Frames.bind Stamps.trans (record_stamps made) fun _ => ih _

theorem reduce_stamps : Frames Stamps (reduce encoding) := by
  have hbudget : ∀ replay : ControlReplay Program,
      Stamps replay { replay with reductions := replay.reductions + 1 } := fun _ =>
    ⟨rfl, rfl, rfl, [], (List.append_nil _).symm, fun _ h => (by cases h)⟩
  refine Frames.bind Stamps.trans (Frames.modify hbudget) fun _ => ?_
  refine Frames.bind Stamps.trans (within_stamps _) fun _ => ?_
  refine Frames.bind Stamps.trans (Frames.get Stamps.refl) fun replay => ?_
  cases traced encoding replay with
  | error reason => exact Frames.throw Stamps.refl _
  | ok reduction =>
    have hspent : ∀ replay : ControlReplay Program,
        Stamps replay { replay with
          evaluations := saturatingAdd replay.evaluations reduction.evaluations } := fun _ =>
      ⟨rfl, rfl, rfl, [], (List.append_nil _).symm, fun _ h => (by cases h)⟩
    refine Frames.bind Stamps.trans (Frames.modify hspent) fun _ => ?_
    refine Frames.bind Stamps.trans (within_stamps _) fun _ => ?_
    exact Frames.bind Stamps.trans (recordTrace_stamps _ _) fun _ => stopPending_stamps _

theorem projectLifecycle_stamps : Frames Stamps (projectLifecycle encoding) := by
  refine Frames.bind Stamps.trans (Frames.get Stamps.refl) fun replay => ?_
  dsimp only
  split
  · exact Frames.pure Stamps.refl _
  · split
    · exact reduce_stamps
    · exact Frames.pure Stamps.refl _

theorem projectEvent_stamps (event : Ledger.RunEvent) :
    Frames Stamps (projectEvent encoding event) := by
  cases event with
  | safeLog | tokenUsageObserved | runTokenUsageObserved | primaryGraphCompleted =>
    exact Frames.pure Stamps.refl _
  | forceStopRequested | terminal => exact stopPending_stamps none
  | priorExecution | runStarted | nodeStarted | nodeCompleted | executionVoided =>
    exact projectLifecycle_stamps

/-- The same, but for the snapshot. -/
def StampsBut (before after : ControlReplay Program) : Prop :=
  Stamps before { after with snapshot := before.snapshot }

theorem Stamps.but (before after : ControlReplay Program) (h : Stamps before after) :
    StampsBut before after :=
  ⟨rfl, h.sequence, h.error, h.updates⟩

theorem StampsBut.trans (first second third : ControlReplay Program) (h : StampsBut first second)
    (h' : StampsBut second third) : StampsBut first third := by
  refine Stamps.trans first { second with snapshot := first.snapshot } _ h ?_
  exact ⟨rfl, h'.sequence, h'.error, h'.updates⟩

theorem Frames.but {α : Type} {x : Projection Program α} (h : Frames Stamps x) :
    Frames StampsBut x := fun replay => Stamps.but _ _ (h replay)

theorem applySnapshot_stamps (wire : Wire) (event : Ledger.RunEvent) (sequence : Nat) :
    Frames StampsBut (applySnapshot wire event sequence : Projection Program Unit) := by
  have hset : ∀ (snapshot : RunSnapshot) (replay : ControlReplay Program),
      StampsBut replay { replay with snapshot } := fun _ replay =>
    ⟨rfl, rfl, rfl, [], (List.append_nil _).symm, fun _ h => (by cases h)⟩
  refine Frames.bind StampsBut.trans (Frames.but (Frames.get Stamps.refl)) fun replay => ?_
  cases Ledger.applyEvent wire event sequence replay.snapshot with
  | ok value snapshot => exact Frames.modify (hset snapshot)
  | error error snapshot =>
    exact Frames.bind StampsBut.trans (Frames.modify (hset snapshot)) fun _ =>
      Frames.but (Frames.throw Stamps.refl _)

variable {wire : Wire} {stored : StoredRunEvent} {replay : ControlReplay Program}

theorem apply_eq (hcursor : cursorSequence stored.cursor = .ok (replay.sequence + 1)) :
    apply encoding wire stored replay =
      applyNext encoding wire stored (replay.sequence + 1) replay := by
  unfold apply
  rw [hcursor]
  change (if replay.sequence + 1 ≠ replay.sequence + 1 then throw ProjectionError.failed
    else applyNext encoding wire stored (replay.sequence + 1)) replay = _
  rw [if_neg (not_not.mpr rfl)]

theorem apply_stamps (hcursor : cursorSequence stored.cursor = .ok (replay.sequence + 1)) :
    StampsBut { replay with sequence := replay.sequence + 1 }
      (leaves (apply encoding wire stored replay)) := by
  have hspent : ∀ (bytes : Nat) (replay : ControlReplay Program), Stamps replay
      { replay with sourceBytes := saturatingAdd replay.sourceBytes bytes } := fun _ _ =>
    ⟨rfl, rfl, rfl, [], (List.append_nil _).symm, fun _ h => (by cases h)⟩
  have hrest : Frames StampsBut (do
      let bytes ← orFailed (encoding.eventBytes stored)
      modify fun replay => { replay with sourceBytes := saturatingAdd replay.sourceBytes bytes }
      within fun replay =>
        replay.scanned ≤ maxControlEvents && replay.sourceBytes ≤ maxSourceBytes
      applySnapshot wire stored.event (replay.sequence + 1)
      projectEvent encoding stored.event : Projection Program Unit) := by
    refine Frames.bind StampsBut.trans (Frames.but (orFailed_stamps _)) fun bytes => ?_
    refine Frames.bind StampsBut.trans (Frames.but (Frames.modify (hspent bytes))) fun _ => ?_
    refine Frames.bind StampsBut.trans (Frames.but (within_stamps _)) fun _ => ?_
    refine Frames.bind StampsBut.trans (applySnapshot_stamps _ _ _) fun _ => ?_
    exact Frames.but (projectEvent_stamps _)
  rw [apply_eq hcursor]
  have hframe := hrest
    { replay with sequence := replay.sequence + 1, scanned := replay.scanned + 1 }
  exact ⟨rfl, hframe.sequence, hframe.error, hframe.updates⟩

theorem apply_cursor (hcursor : cursorSequence stored.cursor = .ok (replay.sequence + 1))
    {after : ControlReplay Program} (h : apply encoding wire stored replay = .ok () after) :
    after.snapshot.cursor = cursorFor (replay.sequence + 1) := by
  rw [apply_eq hcursor] at h
  unfold applyNext at h
  obtain ⟨_, first, -, h⟩ := runs_bind.mp h
  obtain ⟨_, second, -, h⟩ := runs_bind.mp h
  obtain ⟨_, third, -, h⟩ := runs_bind.mp h
  obtain ⟨_, fourth, -, h⟩ := runs_bind.mp h
  obtain ⟨_, fifth, hsnapshot, h⟩ := runs_bind.mp h
  have hkept : Stamps fifth (leaves (projectEvent encoding stored.event fifth)) :=
    projectEvent_stamps stored.event fifth
  rw [h] at hkept
  rw [show after.snapshot = fifth.snapshot from hkept.snapshot]
  unfold applySnapshot at hsnapshot
  obtain ⟨_, _, hget, hsnapshot⟩ := runs_bind.mp hsnapshot
  obtain ⟨rfl, rfl⟩ := runs_get.mp hget
  cases happlied : Ledger.applyEvent wire stored.event (replay.sequence + 1) fourth.snapshot with
  | ok value snapshot =>
    rw [happlied] at hsnapshot
    rw [runs_modify.mp hsnapshot]
    obtain ⟨-, -, middle, -, hmiddle⟩ := applyEvent_eq_ok happlied
    rw [hmiddle]
  | error error snapshot =>
    rw [happlied] at hsnapshot
    obtain ⟨_, _, -, hthrow⟩ := runs_bind.mp hsnapshot
    exact absurd hthrow runs_throw

theorem apply_error : (leaves (apply encoding wire stored replay)).error = replay.error := by
  by_cases hcursor : cursorSequence stored.cursor = .ok (replay.sequence + 1)
  · exact (apply_stamps hcursor).error
  · unfold apply
    cases hsequence : cursorSequence stored.cursor with
    | error error => rfl
    | ok sequence =>
      have hother : sequence ≠ replay.sequence + 1 := by
        rintro rfl
        exact hcursor hsequence
      change (leaves ((if sequence ≠ replay.sequence + 1 then throw ProjectionError.failed
        else applyNext encoding wire stored sequence) replay)).error = _
      rw [if_pos hother]
      rfl

/-- A replay goes on where it stopped, unless it failed. -/
theorem advance_append (first second : List StoredRunEvent) (hnone : replay.error = none) :
    replay.advance encoding wire (first ++ second) =
      if (replay.advance encoding wire first).error.isSome then
        replay.advance encoding wire first
      else (replay.advance encoding wire first).advance encoding wire second := by
  induction first generalizing replay with
  | nil =>
    rw [List.nil_append, advance, hnone]
    rfl
  | cons stored first ih =>
    have hkept := @apply_error _ encoding wire stored replay
    rw [List.cons_append, advance, advance]
    cases happlied : apply encoding wire stored replay with
    | ok value after =>
      rw [happlied] at hkept
      exact ih (hkept.trans hnone)
    | error reason after => rfl

end ControlReplay

end Frame

/-! ## Replays of a stored run -/

section Replays

variable {Program : Type} {encoding : Encoding Program} {wire : Wire} {run : FakeRun Program}

theorem replayTo_add (n more : Nat) :
    replayTo encoding wire run (n + more) =
      if (replayTo encoding wire run n).error.isSome then replayTo encoding wire run n
      else (replayTo encoding wire run n).advance encoding wire
        ((run.events.drop n).take more) := by
  unfold replayTo
  rw [List.take_add]
  exact ControlReplay.advance_append _ _ rfl

theorem replayTo_of_error {n m : Nat} (hle : n ≤ m)
    (h : (replayTo encoding wire run n).error.isSome = true) :
    replayTo encoding wire run m = replayTo encoding wire run n := by
  obtain ⟨more, rfl⟩ := Nat.exists_eq_add_of_le hle
  rw [replayTo_add, if_pos h]

/-- Where the replay of the first `n` events is: behind them, or failed before. -/
structure Reached (n : Nat) (replay : ControlReplay Program) : Prop where
  sorted : replay.updates.Pairwise fun first second => first.1 ≤ second.1
  stamped : ∀ entry ∈ replay.updates, entry.1 ≤ replay.sequence
  position : (replay.error = none ∧ replay.sequence = n ∧ replay.snapshot.cursor = cursorFor n) ∨
    ∃ reason, replay.error = some (replay.sequence, reason) ∧ replay.sequence ≤ n

variable {seed snapshot : RunSnapshot}

theorem cursor_at (h : Sourced wire seed snapshot run.events) {n : Nat}
    (hn : n < run.events.length) : cursorSequence (run.events[n]).cursor = .ok (n + 1) := by
  have hdrop := SqliteRunLedger.cursors_drop h.cursors n
  rw [List.drop_eq_getElem_cons hn, List.map_cons, List.length_cons, cursorsFrom,
    Nat.zero_add] at hdrop
  have hbounded := h.bounded
  rw [(List.cons.inj hdrop).1, cursorSequence_cursorFor (by omega)]

theorem replayTo_succ (h : Sourced wire seed snapshot run.events) {n : Nat}
    (hn : n < run.events.length) (hnone : (replayTo encoding wire run n).error = none)
    (hsequence : (replayTo encoding wire run n).sequence = n) :
    ∃ after, ControlReplay.StampsBut
        { replayTo encoding wire run n with sequence := n + 1 } after ∧
      ((after.snapshot.cursor = cursorFor (n + 1) ∧
          replayTo encoding wire run (n + 1) = after) ∨
        ∃ reason, replayTo encoding wire run (n + 1) = after.fail reason) := by
  have hcursor : cursorSequence (run.events[n]).cursor =
      .ok ((replayTo encoding wire run n).sequence + 1) := by
    rw [hsequence, cursor_at h hn]
  have hone : (run.events.drop n).take 1 = [run.events[n]] := by
    rw [List.drop_eq_getElem_cons hn]
    rfl
  have hnext : replayTo encoding wire run (n + 1) =
      (replayTo encoding wire run n).advance encoding wire [run.events[n]] := by
    rw [replayTo_add, hnone, hone]
    rfl
  have hstamps := @ControlReplay.apply_stamps _ encoding wire _ _ hcursor
  rw [hsequence] at hstamps
  rw [hnext, ControlReplay.advance]
  cases happlied : ControlReplay.apply encoding wire (run.events[n])
      (replayTo encoding wire run n) with
  | ok value after =>
    rw [happlied] at hstamps
    have hafter := ControlReplay.apply_cursor hcursor happlied
    rw [hsequence] at hafter
    exact ⟨after, hstamps, .inl ⟨hafter, rfl⟩⟩
  | error reason after =>
    rw [happlied] at hstamps
    exact ⟨after, hstamps, .inr ⟨reason, rfl⟩⟩

theorem sorted_append {old new : List (Nat × ControlRecord)} {n : Nat}
    (hold : old.Pairwise fun first second => first.1 ≤ second.1)
    (hbefore : ∀ entry ∈ old, entry.1 ≤ n) (hnew : ∀ entry ∈ new, entry.1 = n + 1) :
    (old ++ new).Pairwise (fun first second => first.1 ≤ second.1) ∧
      ∀ entry ∈ old ++ new, entry.1 ≤ n + 1 := by
  refine ⟨List.pairwise_append.mpr ⟨hold, ?_, fun first hfirst second hsecond => ?_⟩,
    fun entry hentry => ?_⟩
  · have hall : new.Pairwise fun _ _ => True := List.pairwise_of_forall fun _ _ => trivial
    refine hall.imp_of_mem fun {first second} hfirst hsecond _ => ?_
    rw [hnew first hfirst, hnew second hsecond]
  · have := hbefore first hfirst
    have := hnew second hsecond
    omega
  · rcases List.mem_append.mp hentry with hentry | hentry
    · have := hbefore entry hentry
      omega
    · exact (hnew entry hentry).le

variable (encoding) in
theorem replayTo_reached (h : Sourced wire seed snapshot run.events) {n : Nat}
    (hn : n ≤ run.events.length) : Reached n (replayTo encoding wire run n) := by
  induction n with
  | zero => exact ⟨List.Pairwise.nil, fun _ hc => (by cases hc), .inl ⟨rfl, rfl, rfl⟩⟩
  | succ n ih =>
    have hreached := ih (by omega)
    rcases hreached.position with ⟨hnone, hsequence, -⟩ | ⟨reason, herror, hbefore⟩
    · obtain ⟨after, hstamps, hend⟩ := replayTo_succ h (by omega) hnone hsequence
      obtain ⟨new, hupdates, hnew⟩ := hstamps.updates
      have hold := hreached.stamped
      rw [hsequence] at hold
      obtain ⟨hsorted, hstamped⟩ := sorted_append hreached.sorted hold hnew
      change after.updates = _ at hupdates
      have hafter : after.sequence = n + 1 := hstamps.sequence
      rw [← hupdates] at hsorted hstamped
      rcases hend with ⟨hcursor, hend⟩ | ⟨reason, hend⟩
      · rw [hend]
        refine ⟨hsorted, ?_, .inl ⟨hstamps.error.trans hnone, hafter, hcursor⟩⟩
        rw [hafter]
        exact hstamped
      · rw [hend]
        refine ⟨hsorted, ?_, .inr ⟨reason, rfl, hafter.le⟩⟩
        change ∀ entry ∈ after.updates, entry.1 ≤ after.sequence
        rw [hafter]
        exact hstamped
    · rw [replayTo_of_error (Nat.le_succ n) (by rw [herror]; rfl)]
      exact ⟨hreached.sorted, hreached.stamped, .inr ⟨reason, herror, by omega⟩⟩

/-- **Further is the same**: a replay that went on gives the page of the range's end. -/
theorem replayTo_page (h : Sourced wire seed snapshot run.events) {n start stop : Nat}
    (hstop : stop ≤ n) (hn : n ≤ run.events.length) :
    (replayTo encoding wire run n).page start stop = freshPage encoding wire run start stop := by
  induction n, hstop using Nat.le_induction with
  | base => rfl
  | succ n hle ih =>
    have hreached := replayTo_reached encoding h (show n ≤ run.events.length by omega)
    rw [← ih (by omega)]
    rcases hreached.position with ⟨hnone, hsequence, -⟩ | ⟨reason, herror, hbefore⟩
    · obtain ⟨after, hstamps, hend⟩ := replayTo_succ h (by omega) hnone hsequence
      obtain ⟨new, hupdates, hnew⟩ := hstamps.updates
      change after.updates = (replayTo encoding wire run n).updates ++ new at hupdates
      have hsequence' : after.sequence = n + 1 := hstamps.sequence
      have hrecords : stampedBetween start stop after.updates =
          stampedBetween start stop (replayTo encoding wire run n).updates := by
        rw [hupdates]
        refine stampedBetween_append_later fun entry hentry => ?_
        have hlater : entry.1 = n + 1 := hnew entry hentry
        omega
      rcases hend with ⟨-, hend⟩ | ⟨reason, hend⟩
      · rw [hend, ControlReplay.page, ControlReplay.page, hrecords,
          show after.error = (replayTo encoding wire run n).error from hstamps.error]
      · have hlater : ¬after.sequence ≤ stop := by omega
        rw [hend, ControlReplay.page, ControlReplay.page, hnone]
        simp only [ControlReplay.fail, hrecords, Option.filter_some, hlater, decide_false,
          Bool.false_eq_true, if_false, Option.filter_none, Option.map_none]
    · rw [replayTo_of_error (Nat.le_succ n) (by rw [herror]; rfl)]

theorem upTo_eq {stop n : Nat} {page : List StoredRunEvent}
    (hcursors : page.map StoredRunEvent.cursor = cursorsFrom n page.length)
    (hbounded : n + page.length < 2 ^ 64) : upTo stop page = page.take (stop - n) := by
  induction page generalizing n with
  | nil => rw [List.take_nil, upTo, List.takeWhile_nil]
  | cons stored page ih =>
    rw [List.map_cons, List.length_cons, cursorsFrom, List.cons.injEq] at hcursors
    rw [List.length_cons] at hbounded
    have hsequence : cursorSequence stored.cursor = .ok (n + 1) := by
      rw [hcursors.1, cursorSequence_cursorFor (by omega)]
    unfold upTo
    rw [List.takeWhile_cons, hsequence]
    by_cases hstop : n + 1 ≤ stop
    · have hmore : stop - n = stop - (n + 1) + 1 := by omega
      dsimp only
      rw [if_pos (decide_eq_true hstop), hmore, List.take_succ_cons]
      exact congrArg (List.cons stored) (ih hcursors.2 (by omega))
    · have hover : stop - n = 0 := by omega
      dsimp only
      rw [if_neg (by simpa using hstop), hover, List.take_zero]

theorem read_page (h : Sourced wire seed snapshot run.events) {n stop : Nat} (size : Nat)
    (hn : n < stop) (hstop : stop ≤ run.events.length) :
    tailAfter run.events size (cursorFor n) = .ok ((run.events.drop n).take (size + 1)) ∧
      upTo stop ((run.events.drop n).take (size + 1)) =
        (run.events.drop n).take (min (stop - n) (size + 1)) ∧
      (run.events.drop n).take (min (stop - n) (size + 1)) ≠ [] := by
  have hbounded := h.bounded
  refine ⟨?_, ?_, ?_⟩
  · unfold tailAfter
    rw [cursorSequence_cursorFor (by omega)]
    change (if run.events.length < n then _ else _) = _
    rw [if_neg (by omega)]
  · have hdrop := SqliteRunLedger.cursors_drop h.cursors n
    have htake := SqliteRunLedger.cursors_take hdrop (size + 1)
    rw [Nat.zero_add] at htake
    have hlength : ((run.events.drop n).take (size + 1)).length ≤ run.events.length - n := by
      rw [List.length_take, List.length_drop]
      exact Nat.min_le_right _ _
    rw [upTo_eq htake (by omega), List.take_take]
  · rw [ne_eq, ← List.length_eq_zero_iff, List.length_take, List.length_drop]
    omega

/-- The loop is behind the end of the range, or the replay failed. -/
def Behind (encoding : Encoding Program) (wire : Wire) (run : FakeRun Program) (stop : Nat)
    (replay : ControlReplay Program) : Prop :=
  ∃ m ≤ run.events.length, replay = replayTo encoding wire run m ∧
    (stop ≤ m ∨ replay.error.isSome = true)

theorem behind_of_not_pending (h : Sourced wire seed snapshot run.events) {n stop : Nat}
    (hn : n ≤ run.events.length) (hpending : ¬pending stop (replayTo encoding wire run n) = true) :
    Behind encoding wire run stop (replayTo encoding wire run n) := by
  refine ⟨n, hn, rfl, ?_⟩
  rcases (replayTo_reached encoding h hn).position with ⟨hnone, hsequence, -⟩ | ⟨reason, herror, -⟩
  · rw [pending, hnone, hsequence] at hpending
    exact .inl (by simpa using hpending)
  · exact .inr (by rw [herror]; rfl)

theorem drive_step (h : Sourced wire seed snapshot run.events) {n stop : Nat} (size : Nat)
    (hn : n ≤ run.events.length) (hstop : stop ≤ run.events.length)
    (hpending : pending stop (replayTo encoding wire run n) = true) (tails : List (Option Nat)) :
    ∃ m, n < m ∧ m ≤ run.events.length ∧
      drive encoding wire run.events stop (some size :: tails) (replayTo encoding wire run n) =
        drive encoding wire run.events stop tails (replayTo encoding wire run m) := by
  have hopen := hpending
  rw [pending, Bool.and_eq_true, decide_eq_true_eq, Option.isNone_iff_eq_none] at hopen
  obtain ⟨hless, hnone⟩ := hopen
  rcases (replayTo_reached encoding h hn).position with ⟨-, hsequence, hcursor⟩ |
    ⟨reason, herror, -⟩
  · rw [hsequence] at hless
    obtain ⟨htail, hupTo, hsome⟩ := read_page h size hless hstop
    have hnext : (replayTo encoding wire run n).advance encoding wire
        ((run.events.drop n).take (min (stop - n) (size + 1))) =
          replayTo encoding wire run (n + min (stop - n) (size + 1)) := by
      rw [replayTo_add, hnone]
      rfl
    refine ⟨n + min (stop - n) (size + 1), by omega, by omega, ?_⟩
    rw [drive, if_pos hpending, hcursor, htail]
    dsimp only
    rw [hupTo, if_neg hsome, hnext]
  · rw [herror] at hnone
    cases hnone

/-- **The loop** ends behind the range, whatever pages it reads. -/
theorem drive_behind (h : Sourced wire seed snapshot run.events) {stop : Nat}
    (hstop : stop ≤ run.events.length) (tails : List (Option Nat)) {n : Nat}
    (hn : n ≤ run.events.length) {replay : ControlReplay Program}
    (hdrive : drive encoding wire run.events stop tails (replayTo encoding wire run n) =
      .reached replay) : Behind encoding wire run stop replay := by
  induction tails generalizing n with
  | nil =>
    rw [drive] at hdrive
    by_cases hpending : pending stop (replayTo encoding wire run n) = true
    · rw [if_pos hpending] at hdrive
      cases hdrive
    · rw [if_neg hpending] at hdrive
      cases hdrive
      exact behind_of_not_pending h hn hpending
  | cons tail tails ih =>
    by_cases hpending : pending stop (replayTo encoding wire run n) = true
    · cases tail with
      | none =>
        rw [drive, if_pos hpending] at hdrive
        cases hdrive
      | some size =>
        obtain ⟨m, -, hm, hstep⟩ := drive_step h size hn hstop hpending tails
        rw [hstep] at hdrive
        exact ih hm hdrive
    · unfold drive at hdrive
      rw [if_neg hpending] at hdrive
      cases hdrive
      exact behind_of_not_pending h hn hpending

variable (encoding) in
/-- A loop with a page for every event of the range ends. -/
theorem drive_reaches (h : Sourced wire seed snapshot run.events) {stop : Nat}
    (hstop : stop ≤ run.events.length) {tails : List (Option Nat)} {n : Nat}
    (hn : n ≤ run.events.length) (hsome : ∀ tail ∈ tails, tail ≠ none)
    (henough : stop - n ≤ tails.length) :
    ∃ replay, drive encoding wire run.events stop tails (replayTo encoding wire run n) =
      .reached replay := by
  induction tails generalizing n with
  | nil =>
    refine ⟨replayTo encoding wire run n, ?_⟩
    have hdone : ¬pending stop (replayTo encoding wire run n) = true := by
      rw [List.length_nil] at henough
      rw [pending, Bool.and_eq_true, decide_eq_true_eq, Option.isNone_iff_eq_none]
      rcases (replayTo_reached encoding h hn).position with ⟨-, hsequence, -⟩ |
        ⟨reason, herror, -⟩
      · omega
      · rw [herror]
        exact fun hc => (by cases hc.2)
    rw [drive, if_neg hdone]
  | cons tail tails ih =>
    by_cases hpending : pending stop (replayTo encoding wire run n) = true
    · cases tail with
      | none => exact absurd rfl (hsome none List.mem_cons_self)
      | some size =>
        obtain ⟨m, hless, hm, hstep⟩ := drive_step h size hn hstop hpending tails
        rw [List.length_cons] at henough
        rw [hstep]
        exact ih hm (fun tail htail => hsome tail (List.mem_cons_of_mem _ htail)) (by omega)
    · refine ⟨replayTo encoding wire run n, ?_⟩
      unfold drive
      rw [if_neg hpending]

theorem Behind.page (h : Sourced wire seed snapshot run.events) {start stop : Nat}
    {replay : ControlReplay Program} (hbehind : Behind encoding wire run stop replay) :
    replay.page start stop = freshPage encoding wire run start stop := by
  obtain ⟨m, hm, rfl, hstop | herror⟩ := hbehind
  · exact replayTo_page h hstop hm
  · rcases Nat.le_total stop m with hstop | hless
    · exact replayTo_page h hstop hm
    · rw [freshPage, replayTo_of_error hless herror]

theorem replayTo_grown {run' : FakeRun Program}
    (hsnapshot : run.stored.snapshot.replaySeed = run'.stored.snapshot.replaySeed)
    (hadmitted : run'.stored.admitted = run.stored.admitted)
    (hevents : run.events <+: run'.events) {n : Nat} (hn : n ≤ run.events.length) :
    replayTo encoding wire run' n = replayTo encoding wire run n := by
  have hnew : ControlReplay.new run'.stored = ControlReplay.new run.stored := by
    rw [ControlReplay.new, ControlReplay.new, hsnapshot, hadmitted]
  obtain ⟨rest, hrest⟩ := hevents
  rw [replayTo, replayTo, hnew, ← hrest, List.take_append_of_le_length hn]

end Replays

/-! ## Requests -/

section Requests

variable {Program : Type} {codec : Codec Program} {encoding : Encoding Program}

/-- The cache holds replays of stored runs, each up to some of its events. -/
structure Sound (codec : Codec Program) (encoding : Encoding Program) (s : System Program) :
    Prop where
  coherent : s.ledger.Coherent codec.wire
  cached : ∀ id replay, (id, some replay) ∈ s.runs → ∃ run n,
    OrdMap.get? s.ledger.runs id = some run ∧ n ≤ run.events.length ∧
      replay = replayTo encoding codec.wire run n

theorem mem_entry {id : RunId} {runs : ControlCache Program}
    {other : RunId × Option (ControlReplay Program)} (h : other ∈ (entry id runs).2) :
    other ∈ runs := by
  unfold entry at h
  split at h
  · exact List.mem_of_mem_eraseP h
  · dsimp only at h
    split at h
    · exact List.mem_of_mem_tail h
    · exact h

theorem entry_cached {id : RunId} {runs : ControlCache Program} {replay : ControlReplay Program}
    (h : (entry id runs).1 = some replay) : (id, some replay) ∈ runs := by
  unfold entry at h
  split at h
  · rename_i found hfound
    have hfirst := List.find?_some hfound
    have hid : found.1 = id := of_decide_eq_true hfirst
    rw [← hid, ← show found.2 = some replay from h]
    exact List.mem_of_find?_eq_some hfound
  · cases h

variable {s : System Program} {request : Request}

/-- A request for a run that is not stored leaves no replay. -/
theorem project_unstored (hsound : Sound codec encoding s)
    (hnone : OrdMap.get? s.ledger.runs request.runId = none) :
    (project encoding codec.wire s.ledger request s.runs).2 =
      (entry request.runId s.runs).2 ++ [(request.runId, none)] := by
  cases hcached : (entry request.runId s.runs).1 with
  | some replay =>
    obtain ⟨run, n, hrun, -⟩ := hsound.cached _ _ (entry_cached hcached)
    rw [hnone] at hrun
    cases hrun
  | none =>
    have hget : FakeRunLedger.get request.runId s.ledger = none := by
      rw [FakeRunLedger.get, hnone, Option.map_none]
    unfold project
    dsimp only
    rw [hcached, hget]
    dsimp only
    split <;> rfl

/-- A request for a stored run drives a replay of it, or fails to read the run. -/
theorem project_stored (hsound : Sound codec encoding s) {run : FakeRun Program}
    (hrun : OrdMap.get? s.ledger.runs request.runId = some run) :
    (request.get = false ∧ project encoding codec.wire s.ledger request s.runs =
      settle request (entry request.runId s.runs).2 .ledgerError) ∨
    ∃ n ≤ run.events.length, project encoding codec.wire s.ledger request s.runs =
      settle request (entry request.runId s.runs).2
        (drive encoding codec.wire run.events request.stop request.tails
          (replayTo encoding codec.wire run n)) := by
  have hget : FakeRunLedger.get request.runId s.ledger = some run.stored := by
    rw [FakeRunLedger.get, hrun, Option.map_some]
  unfold project
  dsimp only
  rw [hrun, hget]
  cases hcached : (entry request.runId s.runs).1 with
  | some replay =>
    obtain ⟨other, n, hother, hn, rfl⟩ := hsound.cached _ _ (entry_cached hcached)
    rw [hrun] at hother
    cases hother
    exact .inr ⟨n, hn, rfl⟩
  | none =>
    cases hready : request.get with
    | false => exact .inl ⟨rfl, rfl⟩
    | true => exact .inr ⟨0, Nat.zero_le _, rfl⟩

/-- A request inside the stored history keeps the cache sound. -/
theorem project_sound (hsound : Sound codec encoding s) (hinside : Inside request s.ledger) :
    Sound codec encoding
      { s with runs := (project encoding codec.wire s.ledger request s.runs).2 } := by
  have hothers : ∀ id replay, (id, some replay) ∈ (entry request.runId s.runs).2 → ∃ run n,
      OrdMap.get? s.ledger.runs id = some run ∧ n ≤ run.events.length ∧
        replay = replayTo encoding codec.wire run n :=
    fun id replay hmem => hsound.cached id replay (mem_entry hmem)
  have hempty : ∀ id replay,
      (id, some replay) ∈ (entry request.runId s.runs).2 ++ [(request.runId, none)] → ∃ run n,
        OrdMap.get? s.ledger.runs id = some run ∧ n ≤ run.events.length ∧
          replay = replayTo encoding codec.wire run n := by
    intro id replay hmem
    rcases List.mem_append.mp hmem with hold | hnew
    · exact hothers id replay hold
    · cases List.mem_singleton.mp hnew
  refine ⟨hsound.coherent, ?_⟩
  dsimp only
  cases hrun : OrdMap.get? s.ledger.runs request.runId with
  | none =>
    rw [project_unstored hsound hrun]
    exact hempty
  | some run =>
    have hsourced := hsound.coherent.sourced _ _ hrun
    rcases project_stored hsound hrun with ⟨-, hproject⟩ | ⟨n, hn, hproject⟩
    · rw [hproject]
      exact hempty
    · rw [hproject]
      cases hdrive : drive encoding codec.wire run.events request.stop request.tails
          (replayTo encoding codec.wire run n) with
      | ledgerError => exact hempty
      | dropped => exact hempty
      | reached replay =>
        obtain ⟨m, hm, hreplay, -⟩ := drive_behind hsourced (hinside run hrun) _ hn hdrive
        intro id other hmem
        rcases List.mem_append.mp hmem with hold | hnew
        · exact hothers id other hold
        · cases List.mem_singleton.mp hnew
          exact ⟨run, m, hrun, hm, hreplay⟩

theorem initial_sound : Sound codec encoding (System.initial : System Program) :=
  ⟨FakeRunLedger.coherent_empty _, fun _ _ hmem => (by cases hmem)⟩

theorem ledger_sound [DecidableEq Program] (hsound : Sound codec encoding s) (call : Call Program) :
    Sound codec encoding { s with ledger := (FakeRunLedger.step codec call s.ledger).2 } := by
  have hcoherent : (FakeRunLedger.step codec call s.ledger).2.Coherent codec.wire :=
    FakeRunLedger.stepWith_coherent FakeRunLedger.numbering_nextSequence call hsound.coherent
  refine ⟨hcoherent, fun id replay hmem => ?_⟩
  obtain ⟨run, n, hrun, hn, rfl⟩ := hsound.cached id replay hmem
  obtain ⟨run', hrun', hevents, hstored⟩ := FakeRunLedger.stepWith_extends
    FakeRunLedger.numbering_nextSequence call hsound.coherent id run hrun
  have hsourced := hsound.coherent.sourced id run hrun
  have hsourced' := hcoherent.sourced id run' hrun'
  have hadmitted : run'.stored.admitted = run.stored.admitted := by rw [hstored]
  refine ⟨run', n, hrun', Nat.le_trans hn hevents.length_le, ?_⟩
  refine (replayTo_grown ?_ hadmitted hevents hn).symm
  rw [hsourced.seeded, hsourced'.seeded, hadmitted]

theorem step_sound [DecidableEq Program] (action : Action Program) (s t : System Program)
    (hallowed : Allowed action s)
    (hstep : step codec encoding action s = some t) (hsound : Sound codec encoding s) :
    Sound codec encoding t := by
  cases action with
  | ledger call =>
    cases hstep
    exact ledger_sound hsound call
  | project request =>
    cases hstep
    exact project_sound hsound hallowed

/-- What a request for a stored run returns: nothing, the page of a ledger error, or the fresh
page. -/
theorem project_page {s : System Program} (hsound : Sound codec encoding s) {request : Request}
    {run : FakeRun Program} (hrun : OrdMap.get? s.ledger.runs request.runId = some run)
    (hstop : request.stop ≤ run.events.length) {page : ControlPage}
    (hpage : (project encoding codec.wire s.ledger request s.runs).1 = .page page) :
    page = freshPage encoding codec.wire run request.start request.stop := by
  have hsourced := hsound.coherent.sourced _ _ hrun
  rcases project_stored hsound hrun with ⟨-, hproject⟩ | ⟨n, hn, hproject⟩
  · rw [hproject] at hpage
    cases hpage
  · rw [hproject] at hpage
    cases hdrive : drive encoding codec.wire run.events request.stop request.tails
        (replayTo encoding codec.wire run n) with
    | ledgerError =>
      rw [hdrive] at hpage
      cases hpage
    | dropped =>
      rw [hdrive] at hpage
      cases hpage
    | reached replay =>
      rw [hdrive] at hpage
      cases hpage
      exact (drive_behind hsourced hstop _ hn hdrive).page hsourced

theorem project_answers {s : System Program} (hsound : Sound codec encoding s) {request : Request}
    {run : FakeRun Program} (hrun : OrdMap.get? s.ledger.runs request.runId = some run)
    (hstop : request.stop ≤ run.events.length) (hget : request.get = true)
    (hsome : ∀ tail ∈ request.tails, tail ≠ none) (henough : request.stop ≤ request.tails.length) :
    ∃ page, (project encoding codec.wire s.ledger request s.runs).1 = .page page := by
  have hsourced := hsound.coherent.sourced _ _ hrun
  rcases project_stored hsound hrun with ⟨hnot, -⟩ | ⟨n, hn, hproject⟩
  · rw [hget] at hnot
    cases hnot
  · obtain ⟨replay, hdrive⟩ := drive_reaches encoding hsourced hstop hn hsome (by omega)
    rw [hproject, hdrive]
    exact ⟨_, rfl⟩

/-- What the control history of a stored run is, whatever was asked before. -/
structure Stable (codec : Codec Program) (encoding : Encoding Program) (s : System Program)
    (id : RunId) (run : FakeRun Program) : Prop where
  /-- A page is that of a fresh replay. -/
  fresh : ∀ request, request.runId = id → request.stop ≤ run.events.length → ∀ page,
    (project encoding codec.wire s.ledger request s.runs).1 = .page page →
      page = freshPage encoding codec.wire run request.start request.stop
  /-- A request the ledger answers often enough, and without an error, returns a page. -/
  answered : ∀ request, request.runId = id → request.stop ≤ run.events.length →
    request.get = true → (∀ tail ∈ request.tails, tail ≠ none) →
      request.stop ≤ request.tails.length →
        ∃ page, (project encoding codec.wire s.ledger request s.runs).1 = .page page
  /-- Consecutive ranges have the records of the whole range. -/
  joined : ∀ start middle stop, start ≤ middle → middle ≤ stop → stop ≤ run.events.length →
    (freshPage encoding codec.wire run start middle).records ++
      (freshPage encoding codec.wire run middle stop).records =
        (freshPage encoding codec.wire run start stop).records
  /-- An error shows from one event on. -/
  failing : ∃ first : Option (Nat × ProjectionError), ∀ start stop, stop ≤ run.events.length →
    (freshPage encoding codec.wire run start stop).error =
      (first.filter fun entry => entry.1 ≤ stop).map fun entry => entry.2.asStr

theorem Sound.stable {s : System Program} (hsound : Sound codec encoding s) {id : RunId}
    {run : FakeRun Program} (hrun : OrdMap.get? s.ledger.runs id = some run) :
    Stable codec encoding s id run := by
  have hsourced := hsound.coherent.sourced id run hrun
  have hall := replayTo_reached encoding hsourced (Nat.le_refl run.events.length)
  refine ⟨?_, ?_, ?_, ?_⟩
  · rintro request rfl hstop page hpage
    exact project_page hsound hrun hstop hpage
  · rintro request rfl hstop hget hsome henough
    exact project_answers hsound hrun hstop hget hsome henough
  · intro start middle stop hstart hmiddle hstop
    rw [← replayTo_page hsourced (Nat.le_trans hmiddle hstop) (Nat.le_refl _),
      ← replayTo_page hsourced hstop (Nat.le_refl _),
      ← replayTo_page hsourced hstop (Nat.le_refl _)]
    exact stampedBetween_append hstart hmiddle hall.sorted
  · refine ⟨(replayTo encoding codec.wire run run.events.length).error, fun start stop hstop => ?_⟩
    rw [← replayTo_page hsourced hstop (Nat.le_refl _)]
    rfl

/-- **Control history is stable**: after any calls of the ledger and any requests within the stored
histories, the control history of a stored run depends neither on pages nor on the cache. -/
theorem control_history_stable [DecidableEq Program] (codec : Codec Program)
    (encoding : Encoding Program) (actions : List (Action Program)) (s : System Program)
    (hrun : Machine.run (step codec encoding) actions .initial = some s)
    (hallowed : Machine.Along (step codec encoding) Allowed actions .initial) (id : RunId)
    (run : FakeRun Program) (hstored : OrdMap.get? s.ledger.runs id = some run) :
    Stable codec encoding s id run := by
  have hsound : Sound codec encoding s :=
    Machine.run_invariant_along step_sound hrun hallowed initial_sound
  exact hsound.stable hstored

end Requests

/-! ## The requests of a page -/

section PageRequests

variable {Program Encoded : Type} {encode : StoredRunEvent → Option Encoded}

theorem projectFrom_le {head : Nat} {source : List StoredRunEvent} {next : Cursor} {sequence : Nat}
    {page : List Encoded × Cursor × Nat}
    (h : projectFrom encode head source next sequence = .ok page) :
    page.2.2 ≤ max sequence head := by
  induction source generalizing next sequence page with
  | nil =>
    cases h
    exact Nat.le_max_left _ _
  | cons stored source ih =>
    rw [projectFrom, except_bind_eq_ok] at h
    obtain ⟨position, -, h⟩ := h
    by_cases hhead : head < position
    · rw [if_pos hhead] at h
      cases h
      exact Nat.le_max_left _ _
    · rw [if_neg hhead] at h
      by_cases hgap : position ≠ sequence + 1
      · rw [if_pos hgap] at h
        cases h
      · rw [if_neg hgap] at h
        cases hencode : encode stored with
        | none =>
          rw [hencode] at h
          cases h
        | some value =>
          rw [hencode] at h
          dsimp only at h
          obtain ⟨rest, hrest, h⟩ := except_bind_eq_ok.mp h
          cases h
          have hle := ih hrest
          change rest.2.2 ≤ _
          omega

theorem projectPage_le {source : List StoredRunEvent} {after : Cursor} {head start : Nat}
    {page : List Encoded × Cursor × Nat} (hstart : historySequence after = .ok start)
    (h : projectPage encode source after head = .ok page) : page.2.2 ≤ max start head := by
  rw [projectPage, except_bind_eq_ok] at h
  obtain ⟨sequence, hsequence, h⟩ := h
  rw [hstart] at hsequence
  cases hsequence
  obtain ⟨found, hfound, h⟩ := except_bind_eq_ok.mp h
  split at h
  · cases h
  · cases h
    exact projectFrom_le hfound

/-- **Pages ask inside**: the request that `read_page` makes is inside the stored history. -/
theorem readRange_inside {codec : Codec Program} {ledger : FakeRunLedger Program}
    (hcoherent : ledger.Coherent codec.wire) {id : RunId} {after : Cursor} {start stop : Nat}
    (h : readRange codec encode ledger id after = .ok (start, stop)) {run : FakeRun Program}
    (hrun : OrdMap.get? ledger.runs id = some run) : stop ≤ run.events.length := by
  rw [readRange, except_bind_eq_ok] at h
  obtain ⟨sequence, hsequence, h⟩ := h
  obtain ⟨tail, htail, h⟩ := except_bind_eq_ok.mp h
  obtain ⟨head, hhead, h⟩ := except_bind_eq_ok.mp h
  obtain ⟨page, hpage, h⟩ := except_bind_eq_ok.mp h
  cases h
  have hsourced := hcoherent.sourced id run hrun
  have hafter : FakeRunLedger.requested (some after) = .ok start := by
    cases hcursor : cursorSequence after with
    | error error =>
      rw [historySequence, hcursor] at hsequence
      cases hsequence
    | ok found =>
      rw [historySequence, hcursor] at hsequence
      cases hsequence
      exact hcursor
  rw [FakeRunLedger.snapshotAndTail_eq hcoherent hrun, hafter] at htail
  change Except.mapError ledgerError (if run.events.length < start then _ else _) = _ at htail
  by_cases hahead : run.events.length < start
  · rw [if_pos hahead] at htail
    cases htail
  · rw [if_neg hahead] at htail
    cases htail
    have hlength : historySequence run.stored.snapshot.cursor = .ok run.events.length := by
      rw [historySequence, hsourced.sequence]
      rfl
    rw [hlength] at hhead
    cases hhead
    have hle := projectPage_le hsequence hpage
    omega

/-- The pages of the stores are among those a request may read. -/
theorem pageAfter_eq_tailAfter {codec : Codec Program} {seed snapshot : RunSnapshot}
    {events : List StoredRunEvent} (h : Sourced codec.wire seed snapshot events) {k : Nat}
    (hk : k ≤ events.length) :
    ∃ size,
      tailAfter events size (cursorFor k) = .ok (pageAfter (eventSize codec.wire) events k) := by
  have hbounded := h.bounded
  obtain ⟨size, hsize⟩ : ∃ size,
      (events.drop k).take (size + 1) = pageAfter (eventSize codec.wire) events k := by
    have hprefix := pageAfter_isPrefix (eventSize codec.wire) events k
    rcases Nat.lt_or_eq_of_le hk with hless | hend
    · have hsome := List.length_pos_iff.mpr (pageAfter_ne_nil h.listed.fits hless)
      refine ⟨(pageAfter (eventSize codec.wire) events k).length - 1, ?_⟩
      rw [Nat.sub_add_cancel hsome]
      exact (List.prefix_iff_eq_take.mp hprefix).symm
    · refine ⟨0, ?_⟩
      rw [List.drop_eq_nil_of_le (Nat.le_of_eq hend.symm)] at hprefix ⊢
      rw [List.prefix_nil.mp hprefix, List.take_nil]
  refine ⟨size, ?_⟩
  unfold tailAfter
  rw [cursorSequence_cursorFor (by omega)]
  change (if events.length < k then _ else _) = _
  rw [if_neg (by omega), hsize]

end PageRequests

namespace Sample

/-- One step, and the JSON lengths of its records and events. -/
def encoding : Encoding Unit where
  root _ := Zeroshot.Sample.step Zeroshot.Sample.a
  initialInput _ := .null
  textLength _ := 4
  visitId node indices iterations :=
    some ("[\"" ++ node.asStr ++ "\"," ++ toString indices ++ "," ++ toString iterations ++ "]")
  eventBytes stored := (Ledger.Sample.codec.wire.eventBytes stored.event).map (26 + ·)
  recordBytes _ := some 88

/-- A request for some of the history of the run. -/
def request (start stop : Nat) (tails : List (Option Nat)) : Request :=
  ⟨Ledger.Sample.runId, start, stop, true, tails⟩

/-- A request for a run that is not there takes a place in the cache. -/
def unknown (name : String) : Request := ⟨⟨name⟩, 0, 1, true, []⟩

/-- The run is started and asked for, and leaves the cache; it is stopped, and asked for again: once
with an error of the ledger, once for each event. -/
def actions : List (Action Unit) :=
  [.ledger (.createOrGet Ledger.Sample.request),
    .ledger (.append Ledger.Sample.runId [.runStarted]),
    .project (request 0 1 [some 0]), .project (unknown "run-2"), .project (unknown "run-3"),
    .project (unknown "run-4"), .project (unknown "run-5"),
    .ledger (.requestForceStop Ledger.Sample.runId),
    .project (request 0 2 [none]), .project (request 0 1 [some 0]),
    .project (request 1 2 [some 7])]

end Sample

/-- A run that is started, asked for, evicted and stopped has a stable control history, and a last
request for all of it is answered by that of a fresh replay. -/
theorem control_history_stable_evicted :
    ∃ s run, Machine.run (step Ledger.Sample.codec Sample.encoding) Sample.actions .initial =
        some s ∧
      OrdMap.get? s.ledger.runs Ledger.Sample.runId = some run ∧ run.events.length = 2 ∧
      s.runs.map (fun entry => (entry.1.asStr, entry.2.isSome)) =
        [("run-3", false), ("run-4", false), ("run-5", false), ("run-1", true)] ∧
      Stable Ledger.Sample.codec Sample.encoding s Ledger.Sample.runId run ∧
      (project Sample.encoding Ledger.Sample.codec.wire s.ledger
          (Sample.request 0 2 [some 0, some 0]) s.runs).1 =
        .page (freshPage Sample.encoding Ledger.Sample.codec.wire run 0 2) := by
  have hsystem : (Machine.run (step Ledger.Sample.codec Sample.encoding) Sample.actions
      .initial).map (fun s =>
        ((OrdMap.get? s.ledger.runs Ledger.Sample.runId).map fun run => run.events.length,
          s.runs.map (fun entry => (entry.1.asStr, entry.2.isSome)))) =
      some (some 2, [("run-3", false), ("run-4", false), ("run-5", false), ("run-1", true)]) := by
    decide +kernel
  obtain ⟨s, hs, hproperties⟩ := Option.map_eq_some_iff.mp hsystem
  obtain ⟨hstored, hcache⟩ := Prod.mk.inj hproperties
  obtain ⟨run, hrun, hlength⟩ := Option.map_eq_some_iff.mp hstored
  have hallowed : Machine.Along (step Ledger.Sample.codec Sample.encoding) Allowed Sample.actions
      .initial := by decide +kernel
  have hstable := control_history_stable _ _ Sample.actions s hs hallowed _ run hrun
  have hinside : (Sample.request 0 2 [some 0, some 0]).stop ≤ run.events.length :=
    Nat.le_of_eq hlength.symm
  obtain ⟨page, hpage⟩ := hstable.answered (Sample.request 0 2 [some 0, some 0]) rfl hinside rfl
    (by decide) (by decide)
  have hfresh := hstable.fresh _ rfl hinside page hpage
  exact ⟨s, run, hs, hrun, hlength, hcache, hstable, hfresh ▸ hpage⟩

end Zeroshot.Control
