import Mathlib.Data.List.Sort
import Zeroshot.Ledger.Port

set_option autoImplicit false

/-!
# The SQLite ledger

`SqliteRunLedger`: two tables, the statements the adapter issues on them with the constraints of
the schema, and the calls made of these statements. A transaction works on the database it finds
and commits what it leaves; when it fails, nothing it did is kept.
-/

namespace Zeroshot.Ledger

variable {Program : Type}

/-! ## Tables -/

/-- A row of `v2_runs`. -/
structure RunRow (Text : Type) where
  runId : String
  submissionKey : String
  submissionDigest : String
  cursor : Int
  storedJson : Text

/-- A row of `v2_run_events`. -/
structure EventRow (Text : Type) where
  runId : String
  sequence : Int
  eventJson : Text

structure Database (Text : Type) where
  runs : List (RunRow Text)
  events : List (EventRow Text)

namespace Database

variable {Text : Type}

def empty : Database Text := ⟨[], []⟩

/-- `SELECT … FROM v2_runs WHERE run_id = ?1`. -/
def selectRun (database : Database Text) (runId : String) : Option (RunRow Text) :=
  database.runs.find? fun row => row.runId == runId

/-- `SELECT … FROM v2_runs WHERE submission_key = ?1`. -/
def selectSubmission (database : Database Text) (key : String) : Option (RunRow Text) :=
  database.runs.find? fun row => row.submissionKey == key

/-- `INSERT INTO v2_runs`: the primary key and the submission key are unique. -/
def insertRun (row : RunRow Text) (database : Database Text) :
    Except RunLedgerError (Database Text) :=
  if database.runs.any fun other =>
      other.runId == row.runId || other.submissionKey == row.submissionKey then
    .error .sqliteStorage
  else .ok { database with runs := database.runs ++ [row] }

/-- `INSERT INTO v2_run_events`: the primary key is unique, and the run exists. -/
def insertEvent (row : EventRow Text) (database : Database Text) :
    Except RunLedgerError (Database Text) :=
  if database.events.any fun other =>
      other.runId == row.runId && other.sequence == row.sequence then
    .error .sqliteStorage
  else if database.runs.any fun run => run.runId == row.runId then
    .ok { database with events := database.events ++ [row] }
  else .error .sqliteStorage

/-- `UPDATE v2_runs SET cursor = ?2, stored_json = ?3 WHERE run_id = ?1`, with the number of rows
it changed. -/
def updateRun (runId : String) (cursor : Int) (storedJson : Text) (database : Database Text) :
    Database Text × Nat :=
  ({ database with
      runs := database.runs.map fun row =>
        if row.runId = runId then { row with cursor, storedJson } else row },
    (database.runs.filter fun row => row.runId == runId).length)

def bySequence (row other : EventRow Text) : Prop := row.sequence ≤ other.sequence

instance : DecidableRel (@bySequence Text) :=
  fun row other => inferInstanceAs (Decidable (row.sequence ≤ other.sequence))

/-- The events of a run after a sequence number, in order. -/
def eventsAfter (database : Database Text) (runId : String) (after : Int) : List (EventRow Text) :=
  (database.events.filter fun row => row.runId == runId && after < row.sequence).insertionSort
    bySequence

/-- `SELECT … WHERE run_id = ?1 AND sequence > ?2 ORDER BY sequence LIMIT ?3`. -/
def selectEvents (database : Database Text) (runId : String) (after : Int) (limit : Nat) :
    List (EventRow Text) :=
  (database.eventsAfter runId after).take limit

end Database

/-! ## Loading -/

namespace SqliteRunLedger

variable (codec : Codec Program)

/-- `decode_stored`. -/
def decodeStored (expectedRunId : RunId) (cursor : Int) (json : codec.Text) :
    Except RunLedgerError (StoredRun Program) :=
  match codec.decodeStored json with
  | none => .error .corrupt
  | some stored =>
    if cursor < 0 then .error .corrupt
    else if stored.snapshot.runId ≠ expectedRunId then .error .corrupt
    else do
      let sequence ← cursorSequence stored.snapshot.cursor
      if (sequence : Int) ≠ cursor then .error .corrupt else .ok stored

/-- `load_by_id`. -/
def loadById (database : Database codec.Text) (runId : RunId) :
    Except RunLedgerError (Option (StoredRun Program)) :=
  match database.selectRun runId.asStr with
  | none => .ok none
  | some row => (decodeStored codec runId row.cursor row.storedJson).map some

/-- `load_by_submission`. -/
def loadBySubmission (database : Database codec.Text) (key : SubmissionKey) :
    Except RunLedgerError (Option (String × String × StoredRun Program)) :=
  match database.selectSubmission key.asStr with
  | none => .ok none
  | some row => do
    let stored ← decodeStored codec ⟨row.runId⟩ row.cursor row.storedJson
    .ok (some (row.runId, row.submissionDigest, stored))

/-- `load_by_id(..)?.ok_or(RunNotFound)`. -/
def loadExisting (database : Database codec.Text) (runId : RunId) :
    Except RunLedgerError (StoredRun Program) := do
  match ← loadById codec database runId with
  | some stored => .ok stored
  | none => .error .runNotFound

/-! ## Creating -/

/-- `require_unused_run_id`. -/
def requireUnusedRunId (database : Database codec.Text) (runId : RunId) :
    Except RunLedgerError Unit := do
  match ← loadById codec database runId with
  | some _ => .error .runIdConflict
  | none => .ok ()

/-- `existing_submission`. -/
def existingSubmission [DecidableEq Program] (database : Database codec.Text)
    (request : CreateRun Program) : Except RunLedgerError (Option (StoredRun Program)) := do
  match ← loadBySubmission codec database request.submissionKey with
  | none => do
    requireUnusedRunId codec database request.runId
    .ok none
  | some (existingId, digest, existing) =>
    if digest = request.submissionDigest ∧ existing.admitted = request.admitted then
      .ok (some existing)
    else .error (.submissionConflict ⟨existingId⟩)

/-- `insert_new_run`. -/
def insertNewRun (request : CreateRun Program) (database : Database codec.Text) :
    Except RunLedgerError (StoredRun Program × Database codec.Text) := do
  let stored := newRun request
  let database ← database.insertRun ⟨request.runId.asStr, stored.submissionKey.asStr,
    stored.submissionDigest, 0, codec.encodeStored stored⟩
  .ok (stored, database)

/-- `with_transaction`: the database is what the operation left, or what it was. -/
def withTransaction {α : Type} (database : Database codec.Text)
    (operation : Database codec.Text → Except RunLedgerError (α × Database codec.Text)) :
    Except RunLedgerError α × Database codec.Text :=
  match operation database with
  | .ok (result, database) => (.ok result, database)
  | .error error => (.error error, database)

/-- `create_or_get`. -/
def createOrGet [DecidableEq Program] (request : CreateRun Program)
    (database : Database codec.Text) :
    Except RunLedgerError (CreateRunOutcome Program) × Database codec.Text :=
  if !validateCreate codec request then (.error .admittedRunTooLarge, database)
  else withTransaction codec database fun database => do
    match ← existingSubmission codec database request with
    | some existing => .ok (.existing existing, database)
    | none => do
      let (stored, database) ← insertNewRun codec request database
      .ok (.created stored, database)

/-! ## Appending -/

/-- `next_sequence`. -/
def nextSequence (current : Nat) : Except RunLedgerError Nat :=
  if current + 1 < 2 ^ 64 ∧ current + 1 < 2 ^ 63 then .ok (current + 1) else .error .storage

/-- `insert_event`. -/
def insertEvent (runId : RunId) (sequence : Nat) (event : RunEvent)
    (database : Database codec.Text) : Except RunLedgerError (Database codec.Text) :=
  match codec.encodeEvent event with
  | none => .error .storage
  | some text => database.insertEvent ⟨runId.asStr, sequence, text⟩

/-- `PendingAppend`: the transaction, the snapshot and the number reached. -/
structure PendingAppend where
  database : Database codec.Text
  snapshot : RunSnapshot
  sequence : Nat

/-- `PendingAppend::one_event`. -/
def oneEvent (runId : RunId) (event : RunEvent) (pending : PendingAppend codec) :
    Except RunLedgerError (StoredRunEvent × PendingAppend codec) := do
  let event := prepareEvent pending.snapshot event
  let sequence ← nextSequence pending.sequence
  match applyEvent codec.wire event sequence pending.snapshot with
  | .error error _ => .error error
  | .ok _ snapshot => do
    let database ← insertEvent codec runId sequence event pending.database
    .ok (⟨cursorFor sequence, event⟩, ⟨database, snapshot, sequence⟩)

/-- `PendingAppend::events`. -/
def appendEvents (runId : RunId) : List RunEvent → PendingAppend codec →
    Except RunLedgerError (List StoredRunEvent × PendingAppend codec)
  | [], pending => .ok ([], pending)
  | event :: events, pending => do
    let (stored, pending) ← oneEvent codec runId event pending
    let (appended, pending) ← appendEvents runId events pending
    .ok (stored :: appended, pending)

/-- `update_stored_run`. -/
def updateStoredRun (runId : RunId) (sequence : Nat) (stored : StoredRun Program)
    (database : Database codec.Text) : Except RunLedgerError (Database codec.Text) :=
  let updated := database.updateRun runId.asStr sequence (codec.encodeStored stored)
  if updated.2 ≠ 1 then .error .corrupt else .ok updated.1

/-- `append_transaction`. -/
def appendTransaction (runId : RunId) (events : List RunEvent) (database : Database codec.Text) :
    Except RunLedgerError (AppendResult × Database codec.Text) :=
  if events.isEmpty then .error (.invalidEvent "event batch is empty")
  else do
    let stored ← loadExisting codec database runId
    let sequence ← cursorSequence stored.snapshot.cursor
    let (appended, pending) ←
      appendEvents codec runId events ⟨database, stored.snapshot, sequence⟩
    let database ← updateStoredRun codec runId pending.sequence
      { stored with snapshot := pending.snapshot } pending.database
    .ok (⟨pending.snapshot, appended⟩, database)

/-- `append`. -/
def append (runId : RunId) (events : List RunEvent) (database : Database codec.Text) :
    Except RunLedgerError AppendResult × Database codec.Text :=
  withTransaction codec database (appendTransaction codec runId events)

/-- `request_force_stop`. -/
def requestForceStop (runId : RunId) (database : Database codec.Text) :
    Except RunLedgerError AppendResult × Database codec.Text :=
  withTransaction codec database fun database => do
    let stored ← loadExisting codec database runId
    if stored.snapshot.forceStopRequested || stored.snapshot.terminal.isSome then
      .ok (⟨stored.snapshot, []⟩, database)
    else appendTransaction codec runId [.forceStopRequested] database

/-! ## Reading -/

/-- `decode_replay_event`. -/
def decodeReplayEvent (row : EventRow codec.Text) : Except RunLedgerError StoredRunEvent :=
  if row.sequence < 0 then .error .corrupt
  else
    match codec.decodeEvent row.eventJson with
    | none => .error .corrupt
    | some event => .ok ⟨cursorFor row.sequence.toNat, event⟩

/-- The rows that fit one page, after `rawBytes` are used. -/
def readRows : List (EventRow codec.Text) → Nat → Except RunLedgerError (List StoredRunEvent)
  | [], _ => .ok []
  | row :: rows, rawBytes =>
    if maxReplayBytes < codec.bytes row.eventJson then .error .corrupt
    else if maxReplayBytes < rawBytes + codec.bytes row.eventJson then .ok []
    else do
      let event ← decodeReplayEvent codec row
      let page ← readRows rows (rawBytes + codec.bytes row.eventJson)
      .ok (event :: page)

/-- `read_page`. -/
def readPage (database : Database codec.Text) (runId : RunId) (after : Int) :
    Except RunLedgerError (List StoredRunEvent) :=
  readRows codec (database.selectEvents runId.asStr after maxReplayEvents) 0

/-- `snapshot_page`. Its two statements are not in one transaction: the first sees one state of the
database, the second possibly a later one. -/
def snapshotPage (first second : Database codec.Text) (runId : RunId) (after : Option Cursor) :
    Except RunLedgerError SnapshotAndTail := do
  let stored ← loadExisting codec first runId
  let after ← after.elim (.ok 0) cursorSequence
  let current ← cursorSequence stored.snapshot.cursor
  if current < after then .error .cursorAhead
  else if 2 ^ 63 ≤ after then .error .cursorAhead
  else do
    let events ← readPage codec second runId after
    .ok ⟨stored.snapshot, events⟩

/-- `get`. -/
def get (runId : RunId) (database : Database codec.Text) :
    Except RunLedgerError (Option (StoredRun Program)) :=
  loadById codec database runId

/-- `get_by_submission_key`. -/
def getBySubmissionKey (key : SubmissionKey) (database : Database codec.Text) :
    Except RunLedgerError (Option (StoredRun Program)) :=
  (loadBySubmission codec database key).map fun found => found.map fun row => row.2.2

/-- The adapter, when nothing else works on the database. -/
def step [DecidableEq Program] (call : Call Program) (database : Database codec.Text) :
    Outcome Program (Database codec.Text) :=
  match call with
  | .createOrGet request =>
    let outcome := createOrGet codec request database
    (outcome.1.map .created, outcome.2)
  | .get runId => ((get codec runId database).map .found, database)
  | .getBySubmissionKey key => ((getBySubmissionKey codec key database).map .found, database)
  | .append runId events =>
    let outcome := append codec runId events database
    (outcome.1.map .appended, outcome.2)
  | .requestForceStop runId =>
    let outcome := requestForceStop codec runId database
    (outcome.1.map .appended, outcome.2)
  | .snapshotAndTail runId after =>
    ((snapshotPage codec database database runId after).map .page, database)

end SqliteRunLedger

end Zeroshot.Ledger
