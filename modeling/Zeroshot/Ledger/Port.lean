import Zeroshot.Ledger.Transitions

set_option autoImplicit false

/-!
# The ledger port

The calls of the `RunLedger` trait and their replies, and what both adapters take from outside: the
JSON encoding of events and stored runs (`Codec`). An adapter is a step function from a call and a
store to a reply and a store.
-/

namespace Zeroshot.Ledger

variable {Program : Type}

/-! ## Encoding -/

/-- The JSON encoding of what the ledger stores, with the token of an execution's address. -/
structure Codec (Program : Type) where
  Text : Type
  bytes : Text → Nat
  encodeEvent : RunEvent → Option Text
  decodeEvent : Text → Option RunEvent
  encodeStored : StoredRun Program → Text
  decodeStored : Text → Option (StoredRun Program)
  encodeAdmitted : AdmittedRun Program → Option Text
  executionToken : ExecutionRef → String

/-- The part of the codec the state machine uses. -/
def Codec.wire (codec : Codec Program) : Wire where
  eventBytes event := (codec.encodeEvent event).map codec.bytes
  executionToken := codec.executionToken

/-- What is encoded is read back. -/
structure Codec.RoundTrips (codec : Codec Program) : Prop where
  event : ∀ event text, codec.encodeEvent event = some text → codec.decodeEvent text = some event
  stored : ∀ stored, codec.decodeStored (codec.encodeStored stored) = some stored

/-- `validate_create`. -/
def validateCreate (codec : Codec Program) (request : CreateRun Program) : Bool :=
  match codec.encodeAdmitted request.admitted with
  | some text => codec.bytes text ≤ maxAdmittedRunBytes
  | none => false

/-- The run a request creates. -/
def newRun (request : CreateRun Program) : StoredRun Program where
  submissionKey := request.submissionKey
  submissionDigest := request.submissionDigest
  admitted := request.admitted
  snapshot := .ofAdmitted request.runId request.admitted

/-! ## Calls -/

inductive Call (Program : Type)
  | createOrGet (request : CreateRun Program)
  | get (runId : RunId)
  | getBySubmissionKey (key : SubmissionKey)
  | append (runId : RunId) (events : List RunEvent)
  | requestForceStop (runId : RunId)
  | snapshotAndTail (runId : RunId) (after : Option Cursor)

inductive Reply (Program : Type)
  | created (outcome : CreateRunOutcome Program)
  | found (run : Option (StoredRun Program))
  | appended (result : AppendResult)
  | page (result : SnapshotAndTail)
  deriving DecidableEq

/-- What a call returns, and the store it leaves. -/
abbrev Outcome (Program State : Type) := Except RunLedgerError (Reply Program) × State

/-- The replies of calls made one after the other, and the store they leave. -/
def runCalls {State : Type} (step : Call Program → State → Outcome Program State) :
    List (Call Program) → State → List (Except RunLedgerError (Reply Program)) × State
  | [], state => ([], state)
  | call :: calls, state =>
    let outcome := step call state
    let rest := runCalls step calls outcome.2
    (outcome.1 :: rest.1, rest.2)

/-- What every call keeps, all calls keep. -/
theorem runCalls_invariant {State : Type} {step : Call Program → State → Outcome Program State}
    {P : State → Prop} (hstep : ∀ call state, P state → P (step call state).2)
    (calls : List (Call Program)) {state : State} (h : P state) :
    P (runCalls step calls state).2 := by
  induction calls generalizing state with
  | nil => exact h
  | cons call calls ih => exact ih (hstep call state h)

/-! ## Batches -/

/-- The loop of an append: prepare, number, apply and keep each event in turn. `next` gives the
number after a number. -/
def appendLoop (wire : Wire) (next : Nat → Except RunLedgerError Nat) :
    RunSnapshot → Nat → List RunEvent →
      Except RunLedgerError (RunSnapshot × Nat × List StoredRunEvent)
  | snapshot, sequence, [] => .ok (snapshot, sequence, [])
  | snapshot, sequence, event :: events => do
    let event := prepareEvent snapshot event
    let sequence ← next sequence
    match applyEvent wire event sequence snapshot with
    | .error error _ => .error error
    | .ok _ snapshot =>
      let (snapshot, last, stored) ← appendLoop wire next snapshot sequence events
      .ok (snapshot, last, ⟨cursorFor sequence, event⟩ :: stored)

/-! ## A sample run -/

namespace Sample

/-- An encoding that gives the events without fields the length of their JSON. -/
def codec : Codec Unit where
  Text := RunEvent ⊕ StoredRun Unit ⊕ AdmittedRun Unit
  bytes
    | .inl .runStarted => 22
    | .inl .forceStopRequested => 31
    | _ => 1024
  encodeEvent event := some (.inl event)
  decodeEvent
    | .inl event => some event
    | .inr _ => none
  encodeStored stored := .inr (.inl stored)
  decodeStored
    | .inr (.inl stored) => some stored
    | _ => none
  encodeAdmitted admitted := some (.inr (.inr admitted))
  executionToken reference := reference.node.asStr

theorem roundTrips : codec.RoundTrips where
  event _ _ h := by
    cases h
    rfl
  stored _ := rfl

def runId : RunId := ⟨"run-1"⟩

def build : NodeName := ⟨"build", by decide⟩

theorem first_bounded : 1 < 2 ^ 64 := by simp

def first (tag : IdentityTag) : PositiveIdentity tag := ⟨1, Nat.one_pos, first_bounded⟩

def reference : ExecutionRef := ⟨runId, build, first _, first _⟩

def request : CreateRun Unit :=
  ⟨runId, ⟨"submission-1"⟩, "digest-1", ⟨"sample", none, .small, ()⟩⟩

/-- A run that is created, started and stopped. -/
def calls : List (Call Unit) :=
  [.createOrGet request, .append runId [.runStarted], .requestForceStop runId]

end Sample

end Zeroshot.Ledger
