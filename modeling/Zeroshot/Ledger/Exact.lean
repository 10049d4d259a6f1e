import Zeroshot.Ledger.Sourcing

set_option autoImplicit false

/-!
# Values the encoding keeps

`serde_json` prints a float with the fewest digits that name it, and without its `float_roundtrip`
feature reads digits by one division that may be off by a bit. So some floats are read back as a
neighbour, and what a run stores is read back unchanged only when it carries none of them.

`Exactness` says which values and programs are read back, `Carries` that an event, a snapshot, a
run or a call carries no others. Every call keeps this (`stepWith_carries`).
-/

namespace Zeroshot.Ledger

variable {Program : Type}

/-! ## What is carried -/

/-- The values and programs that are read back as they were written. -/
structure Exactness (Program : Type) where
  value : Value → Prop
  program : Program → Prop

/-- Everything is read back. -/
def Exactness.all : Exactness Program := ⟨fun _ => True, fun _ => True⟩

section

variable (exact : Value → Prop)

def OutcomeCarries : WorkerOutcome → Prop
  | .verified output _ => exact output
  | .verifier output _ diagnostic _ => exact output ∧ exact diagnostic
  | .error _ _ => True

def ResultCarries : TerminalResult → Prop
  | .succeeded output => exact output
  | .failed _ _ => True

def ExecutionCarries (e : DurableExecution) : Prop :=
  exact e.input ∧
    match e.state with
    | .settled _ outcome => OutcomeCarries exact outcome
    | .active | .voided _ _ => True

def RunEvent.Carries : RunEvent → Prop
  | .priorExecution execution => ExecutionCarries exact execution
  | .nodeStarted _ _ _ input => exact input
  | .nodeCompleted completion => OutcomeCarries exact completion.outcome
  | .primaryGraphCompleted result _ _ => ResultCarries exact result
  | .terminal result => ResultCarries exact result
  | .runStarted | .executionVoided _ _ | .safeLog _ _ _ _ _ | .tokenUsageObserved _ _
  | .runTokenUsageObserved _ | .forceStopRequested => True

def NodeSnapshot.Carries (node : NodeSnapshot) : Prop :=
  exact node.input ∧
    match node.state with
    | .completed _ outcome => OutcomeCarries exact outcome
    | .active | .voided _ _ => True

structure RunSnapshot.Carries (snapshot : RunSnapshot) : Prop where
  executions : ∀ entry ∈ snapshot.executions, entry.2.Carries exact
  executionSeed : ∀ e ∈ snapshot.executionSeed, ExecutionCarries exact e
  primaryGraph : ∀ primary ∈ snapshot.primaryGraph, ResultCarries exact primary.result
  terminal : ∀ result ∈ snapshot.terminal, ResultCarries exact result

end

def StoredRun.Carries (exact : Exactness Program) (run : StoredRun Program) : Prop :=
  exact.program run.admitted.program ∧ run.snapshot.Carries exact.value

def Call.Carries (exact : Exactness Program) : Call Program → Prop
  | .createOrGet request => exact.program request.admitted.program
  | .append _ events => ∀ event ∈ events, event.Carries exact.value
  | .get _ | .getBySubmissionKey _ | .requestForceStop _ | .snapshotAndTail _ _ => True

/-- The runs of a store carry only exact values. -/
def FakeRunLedger.Carries (exact : Exactness Program) (state : FakeRunLedger Program) : Prop :=
  ∀ runId run, OrdMap.get? state.runs runId = some run → run.stored.Carries exact ∧
    ∀ e ∈ run.events, e.event.Carries exact.value

/-- What carries only exact values is read back. -/
structure Codec.ReadsBack (codec : Codec Program) (exact : Exactness Program) : Prop where
  event : ∀ event text, event.Carries exact.value → codec.encodeEvent event = some text →
    codec.decodeEvent text = some event
  stored : ∀ stored : StoredRun Program, stored.Carries exact →
    codec.decodeStored (codec.encodeStored stored) = some stored

/-- The runs and the events of a store are read back. -/
structure Readable (codec : Codec Program) (state : FakeRunLedger Program) : Prop where
  stored : ∀ runId run, OrdMap.get? state.runs runId = some run →
    codec.decodeStored (codec.encodeStored run.stored) = some run.stored
  event : ∀ runId run, OrdMap.get? state.runs runId = some run → ∀ e ∈ run.events, ∀ text,
    codec.encodeEvent e.event = some text → codec.decodeEvent text = some e.event

theorem FakeRunLedger.Carries.readable {codec : Codec Program} {exact : Exactness Program}
    {state : FakeRunLedger Program} (h : state.Carries exact) (hreads : codec.ReadsBack exact) :
    Readable codec state where
  stored runId run hrun := hreads.stored _ (h runId run hrun).1
  event runId run hrun e he text := hreads.event _ text ((h runId run hrun).2 e he)

theorem Codec.RoundTrips.readsBack {codec : Codec Program} (h : codec.RoundTrips) :
    codec.ReadsBack .all where
  event event text _ := h.event event text
  stored stored _ := h.stored stored

theorem RunEvent.carries_all (event : RunEvent) : event.Carries fun _ => True := by
  have houtcome : ∀ outcome, OutcomeCarries (fun _ => True) outcome := by
    intro outcome
    cases outcome <;> simp [OutcomeCarries]
  have hresult : ∀ result, ResultCarries (fun _ => True) result := by
    intro result
    cases result <;> trivial
  cases event with
  | priorExecution execution =>
    refine ⟨trivial, ?_⟩
    split
    · exact houtcome _
    · trivial
    · trivial
  | nodeCompleted completion => exact houtcome _
  | primaryGraphCompleted result => exact hresult _
  | terminal result => exact hresult _
  | _ => trivial

theorem Call.carries_all (call : Call Program) : call.Carries .all := by
  cases call with
  | append runId events => exact fun event _ => event.carries_all
  | _ => trivial

/-! ## Events -/

section

variable {exact : Value → Prop}

theorem RunSnapshot.carries_ofAdmitted (runId : RunId) (admitted : AdmittedRun Program) :
    (RunSnapshot.ofAdmitted runId admitted).Carries exact where
  executions _ h := nomatch h
  executionSeed _ h := nomatch h
  primaryGraph _ h := nomatch h
  terminal _ h := nomatch h

/-- One more execution, or a new state of one. -/
theorem RunSnapshot.Carries.insert {s : RunSnapshot} (h : s.Carries exact) {id : ExecutionId}
    {node : NodeSnapshot} (hnode : node.Carries exact) :
    ∀ entry ∈ OrdMap.insert id node s.executions, entry.2.Carries exact := by
  intro entry hentry
  rcases OrdMap.mem_insert_imp hentry with rfl | hentry
  · exact hnode
  · exact h.executions entry hentry

theorem RunSnapshot.Carries.node {s : RunSnapshot} (h : s.Carries exact) {id : ExecutionId}
    {node : NodeSnapshot} (hnode : OrdMap.get? s.executions id = some node) :
    node.Carries exact :=
  h.executions _ (OrdMap.mem_of_get? hnode)

theorem prepareEvent_carries {event : RunEvent} (h : event.Carries exact) (s : RunSnapshot) :
    (prepareEvent s event).Carries exact := by
  have hresult : ∀ result, ResultCarries exact result →
      ResultCarries exact (prepareResult s result) := by
    intro result hresult
    cases result with
    | succeeded output => exact hresult
    | failed reason context => cases context <;> trivial
  cases event with
  | terminal result => exact hresult result h
  | primaryGraphCompleted result _ _ => exact hresult result h
  | _ => exact h

theorem Changes.carries {n : Nat} {event : RunEvent} {s s' : RunSnapshot}
    (hchange : Changes n event s s') (hevent : event.Carries exact) (h : s.Carries exact) :
    s'.Carries exact := by
  cases hchange with
  | priorExecution _ _ _ =>
    refine ⟨h.executions, fun e he => ?_, h.primaryGraph, h.terminal⟩
    rcases List.mem_append.mp he with he | he
    · exact h.executionSeed e he
    · exact List.mem_singleton.mp he ▸ hevent
  | runStarted _ => exact ⟨h.executions, h.executionSeed, h.primaryGraph, h.terminal⟩
  | nodeStarted =>
    exact ⟨h.insert ⟨hevent, trivial⟩, h.executionSeed, h.primaryGraph, h.terminal⟩
  | nodeCompleted _ _ _ dispatched _ _ =>
    exact ⟨h.insert ⟨(h.node dispatched).1, hevent⟩, h.executionSeed, h.primaryGraph, h.terminal⟩
  | executionVoided _ dispatched _ _ =>
    exact ⟨h.insert ⟨(h.node dispatched).1, trivial⟩, h.executionSeed, h.primaryGraph,
      h.terminal⟩
  | observed _ change =>
    have hrest := change.rest
    refine ⟨?_, ?_, ?_, ?_⟩
    · rcases change.executions with hsame | ⟨id, node, hnode, hmarked⟩
      · rw [hsame]
        exact h.executions
      · rw [hmarked]
        exact h.insert ⟨(h.node hnode).1, (h.node hnode).2⟩
    · rw [hrest]
      exact h.executionSeed
    · rw [hrest]
      exact h.primaryGraph
    · rw [hrest]
      exact h.terminal
  | primaryGraphCompleted _ _ _ _ =>
    refine ⟨h.executions, h.executionSeed, fun primary hprimary => ?_, h.terminal⟩
    cases hprimary
    exact hevent
  | forceStopRequested _ => exact ⟨h.executions, h.executionSeed, h.primaryGraph, h.terminal⟩
  | terminal _ =>
    refine ⟨h.executions, h.executionSeed, fun primary hprimary => ?_, fun result hresult => ?_⟩
    · obtain ⟨old, hold, rfl⟩ := Option.map_eq_some_iff.mp hprimary
      exact h.primaryGraph old hold
    · cases hresult
      exact hevent

theorem appendLoop_carries {wire : Wire} {next : Nat → Except RunLedgerError Nat}
    {s s' : RunSnapshot} {n n' : Nat} {events : List RunEvent} {stored : List StoredRunEvent}
    (hevents : ∀ event ∈ events, event.Carries exact) (hs : s.Carries exact)
    (h : appendLoop wire next s n events = .ok (s', n', stored)) :
    s'.Carries exact ∧ ∀ e ∈ stored, e.event.Carries exact := by
  induction events generalizing s n s' n' stored with
  | nil =>
    cases h
    exact ⟨hs, fun _ h => nomatch h⟩
  | cons event events ih =>
    simp only [appendLoop, except_bind_eq_ok] at h
    obtain ⟨m, -, h⟩ := h
    have hprepared := prepareEvent_carries (hevents event List.mem_cons_self) s
    split at h
    · cases h
    · rename_i u t hstep
      obtain ⟨-, -, middle, hchanges, rfl⟩ := applyEvent_eq_ok hstep
      have hmiddle := hchanges.carries hprepared hs
      have hnext : RunSnapshot.Carries exact { middle with cursor := cursorFor m } :=
        ⟨hmiddle.executions, hmiddle.executionSeed, hmiddle.primaryGraph, hmiddle.terminal⟩
      obtain ⟨⟨s₁, n₁, stored₁⟩, hrest, h⟩ := except_bind_eq_ok.mp h
      cases h
      obtain ⟨hlast, hstored⟩ :=
        ih (fun event he => hevents event (List.mem_cons_of_mem _ he)) hnext hrest
      refine ⟨hlast, fun e he => ?_⟩
      rcases List.mem_cons.mp he with rfl | he
      · exact hprepared
      · exact hstored e he

end

/-! ## Calls -/

section

variable {exact : Exactness Program} {state : FakeRunLedger Program}

theorem FakeRunLedger.carries_empty : (empty : FakeRunLedger Program).Carries exact :=
  fun _ _ h => nomatch h

theorem FakeRunLedger.Carries.insert (h : state.Carries exact) {runId : RunId}
    {run : FakeRun Program} (hstored : run.stored.Carries exact)
    (hevents : ∀ e ∈ run.events, e.event.Carries exact.value)
    (submissions : OrdMap SubmissionKey RunId) :
    FakeRunLedger.Carries exact ⟨OrdMap.insert runId run state.runs, submissions⟩ := by
  intro id other hother
  by_cases hid : id = runId
  · subst hid
    rw [OrdMap.get?_insert_self] at hother
    cases hother
    exact ⟨hstored, hevents⟩
  · rw [OrdMap.get?_insert_ne hid] at hother
    exact h id other hother

theorem FakeRunLedger.appendLocked_carries {wire : Wire} {next : Nat → Except RunLedgerError Nat}
    {run run' : FakeRun Program} {events : List RunEvent} {result : AppendResult}
    (hevents : ∀ event ∈ events, event.Carries exact.value) (hrun : run.stored.Carries exact ∧
      ∀ e ∈ run.events, e.event.Carries exact.value)
    (h : appendLocked wire next run events = .ok (result, run')) :
    run'.stored.Carries exact ∧ ∀ e ∈ run'.events, e.event.Carries exact.value := by
  unfold appendLocked at h
  split at h
  · cases h
  · simp only [except_bind_eq_ok] at h
    obtain ⟨n, -, ⟨snapshot, last, stored⟩, hloop, h⟩ := h
    cases h
    obtain ⟨hsnapshot, hstored⟩ := appendLoop_carries hevents hrun.1.2 hloop
    refine ⟨⟨hrun.1.1, hsnapshot⟩, fun e he => ?_⟩
    rcases List.mem_append.mp he with he | he
    · exact hrun.2 e he
    · exact hstored e he

theorem FakeRunLedger.withRun_carries {runId : RunId}
    {operation : FakeRun Program → Except RunLedgerError (AppendResult × FakeRun Program)}
    (h : state.Carries exact)
    (hoperation : ∀ run result run', (run.stored.Carries exact ∧
      ∀ e ∈ run.events, e.event.Carries exact.value) → operation run = .ok (result, run') →
        run'.stored.Carries exact ∧ ∀ e ∈ run'.events, e.event.Carries exact.value) :
    (withRun runId state operation).2.Carries exact := by
  unfold withRun
  split
  · exact h
  · rename_i run hrun
    split
    · exact h
    · rename_i result run' hresult
      obtain ⟨hstored, hevents⟩ := hoperation run result run' (h runId run hrun) hresult
      exact h.insert hstored hevents _

/-- **Calls keep exactness.** -/
theorem FakeRunLedger.stepWith_carries [DecidableEq Program] {codec : Codec Program}
    {next : Nat → Except RunLedgerError Nat} {call : Call Program} (hcall : call.Carries exact)
    (h : state.Carries exact) : (stepWith codec next call state).2.Carries exact := by
  cases call with
  | createOrGet request =>
    simp only [stepWith, createOrGet]
    split
    · exact h
    · split
      · split
        · exact h
        · split <;> exact h
      · split
        · exact h
        · have hnew : (newRun request).Carries exact :=
            ⟨hcall, RunSnapshot.carries_ofAdmitted _ _⟩
          exact h.insert hnew (fun e he => by cases he) _
  | append runId events =>
    exact withRun_carries h fun run result run' hrun hresult =>
      appendLocked_carries hcall hrun hresult
  | requestForceStop runId =>
    refine withRun_carries h fun run result run' hrun hresult => ?_
    split at hresult
    · cases hresult
      exact hrun
    · refine appendLocked_carries (fun event he => ?_) hrun hresult
      cases List.mem_singleton.mp he
      trivial
  | get | getBySubmissionKey | snapshotAndTail => exact h

end

/-! ## A sample encoding -/

namespace Sample

/-- The double nearest to `10 ^ 23`. -/
def tenTo23 : Nat := 99999999999999991611392

/-- The digits printed before `e-23` for the double `n / 2 ^ 76`. -/
def printed (n : Nat) : Nat := (2 * n * 10 ^ 23 + 2 ^ 76) / 2 ^ 77

/-- The double `n / 2 ^ 76` read for digits before `e-23`: they are divided by `tenTo23`. -/
def parsed (digits : Nat) : Nat := (2 * digits * 2 ^ 76 + tenTo23) / (2 * tenTo23)

/-- The doubles between `2 ^ -24` and `10 ^ -7` are the multiples of `2 ^ -76` there. -/
def double (n : Nat) : Rat := mkRat n (2 ^ 76)

/-- What is read back for a float between `2 ^ -24` and `10 ^ -7`. -/
def readFloat (value : Rat) : Rat :=
  let n := value.num.toNat * 2 ^ 76 / value.den
  if 2 ^ 52 ≤ n ∧ printed n < 10 ^ 16 then double (parsed (printed n)) else value

def readValue : Value → Value
  | .number (.float value) => .number (.float (readFloat value))
  | value => value

def readEvent : RunEvent → RunEvent
  | .nodeStarted reference occurrence attempt input =>
    .nodeStarted reference occurrence attempt (readValue input)
  | event => event

def readStored (stored : StoredRun Unit) : StoredRun Unit :=
  { stored with
    snapshot := { stored.snapshot with
      executions := stored.snapshot.executions.map fun entry =>
        (entry.1, { entry.2 with input := readValue entry.2.input }) } }

/-- The sample encoding, with the floats in the inputs of executions read as `serde_json` does. -/
def floatCodec : Codec Unit :=
  { codec with
    decodeEvent := fun text => (codec.decodeEvent text).map readEvent
    decodeStored := fun text => (codec.decodeStored text).map readStored }

/-- The inputs that are read back. -/
def exact : Exactness Unit := ⟨fun value => readValue value = value, fun _ => True⟩

theorem readsBack : floatCodec.ReadsBack exact where
  event event text hcarries hencode := by
    cases hencode
    cases event with
    | nodeStarted reference occurrence attempt input =>
      change some (RunEvent.nodeStarted reference occurrence attempt (readValue input)) = _
      rw [show readValue input = input from hcarries]
    | _ => rfl
  stored stored hcarries := by
    change some (readStored stored) = _
    have hsame : ∀ entry ∈ stored.snapshot.executions,
        (entry.1, { entry.2 with input := readValue entry.2.input }) = entry := by
      intro entry hentry
      rw [show readValue entry.2.input = entry.2.input from
        (hcarries.2.executions entry hentry).1]
    rw [readStored, List.map_congr_left hsame, List.map_id']

/-- The run is started, executes a node with the input, and is stopped. -/
def floatCalls (input : Value) : List (Call Unit) :=
  [.createOrGet request, .append runId [.runStarted],
    .append runId [.nodeStarted reference ⟨build, []⟩ PositiveInteger.one input],
    .requestForceStop runId]

/-- The run is started and has a page of events. -/
def fullCalls : List (Call Unit) :=
  [.createOrGet request, .append runId [.runStarted],
    .append runId (List.replicate 255 (.runTokenUsageObserved none))]

def inputs (snapshot : RunSnapshot) : List Value :=
  (OrdMap.values snapshot.executions).map NodeSnapshot.input

/-- A float that is read back: `6.918527829211765e-8`. -/
def kept : Value := .number (.float (double (parsed 6918527829211765)))

/-- What the text `6.918527829211762e-8` is read as: the double that is printed with a final `3`, is
then read as the next one, and as the one after that when it is printed again. -/
def drifting : Value := .number (.float (double (parsed 6918527829211762)))

end Sample

end Zeroshot.Ledger
