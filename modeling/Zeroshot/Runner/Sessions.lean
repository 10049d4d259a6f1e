import Zeroshot.Ledger.Event
import Zeroshot.Lib.Machine

set_option autoImplicit false

/-!
# The sessions of a node runner

`NativeNodeRunner` with a run-scoped pool: the activity registry, the session pool, the task of one
invocation and `close_run`. A step is what a party does under one lock or between two waits; the
invocation tasks and the closes of the runs take their steps one at a time, in any order.

What the outside decides comes with the event: whether the factory returned a session, whether a
session answers that it lives, how the driver ended, and when a wait has nothing yet. A factory call
that is dropped leaves no session. The calls of `close_run` for one run follow one another, as its
supervisor awaits each of them; the calls for different runs interleave.
-/

namespace Zeroshot.Runner

open Machine Ledger

/-! ## Keys and entries -/

/-- `ActiveKey`. -/
structure ActiveKey where
  runId : RunId
  execution : ExecutionId
  deriving DecidableEq, Repr

/-- `SessionKey::Run`. -/
structure SessionKey where
  runId : RunId
  nodeInstance : NodeInstanceId
  deriving DecidableEq, Repr

instance : Ord ActiveKey where
  compare a b := (compare a.runId b.runId).then (compare a.execution b.execution)

instance : Ord SessionKey where
  compare a b := (compare a.runId b.runId).then (compare a.nodeInstance b.nodeInstance)

instance : Std.LawfulEqOrd ActiveKey where
  compare_self := Ordering.then_eq_eq.mpr ⟨Std.ReflOrd.compare_self, Std.ReflOrd.compare_self⟩
  eq_of_compare {a b} h := by
    obtain ⟨hrun, hexecution⟩ := Ordering.then_eq_eq.mp h
    cases a
    cases b
    cases Std.LawfulEqOrd.eq_of_compare hrun
    cases Std.LawfulEqOrd.eq_of_compare hexecution
    rfl

instance : Std.LawfulEqOrd SessionKey where
  compare_self := Ordering.then_eq_eq.mpr ⟨Std.ReflOrd.compare_self, Std.ReflOrd.compare_self⟩
  eq_of_compare {a b} h := by
    obtain ⟨hrun, hinstance⟩ := Ordering.then_eq_eq.mp h
    cases a
    cases b
    cases Std.LawfulEqOrd.eq_of_compare hrun
    cases Std.LawfulEqOrd.eq_of_compare hinstance
    rfl

/-- `SessionScope`. -/
inductive SessionScope
  | execution
  | nodeInstance
  deriving DecidableEq, Repr

inductive NodeRunnerError
  | invalidRole
  | sessionOpen
  | sessionLost
  | driver
  | driverDetail (detail : String)
  | connectionLost
  | cleanupUnconfirmed
  | cancelled
  | unsafeOutput
  | durableOutputClosed
  | completionClosed
  | runClosed
  | executionActive
  deriving DecidableEq, Repr

/-- `SessionEntry`. Sessions and opening markers are numbered in the order they are made, which
stands for the identity of their shared pointers. -/
inductive SessionEntry
  | opening (marker : Nat)
  | live (session : Nat)
  | replaceable
  | lost
  deriving DecidableEq, Repr

/-- `SessionLeaseKind`. -/
inductive SessionLeaseKind
  | execution
  | reusable (key : SessionKey)
  deriving DecidableEq, Repr

/-- `SessionBinding`, and a lease apart from its pool. -/
structure SessionBinding where
  session : Nat
  kind : SessionLeaseKind
  deriving DecidableEq, Repr

/-- `ManagedSession`: its closed flag, and what its inner session has seen of `close`. -/
structure ManagedSession where
  runId : RunId
  closed : Bool
  closeCalls : Nat
  closeReturned : Bool
  deriving DecidableEq, Repr

/-! ## Invocation tasks -/

/-- The arm of a biased `select!` beside the cancellation. Asking a session whether it lives reads
the closed flag first; `asked` says that this has happened. -/
inductive Arm
  /-- `wait_for_ready` in `wait_for_open`. -/
  | ready (marker : Nat)
  /-- `factory.open` in `open_session`, for the marker of a reusable key. -/
  | factory (marker : Option Nat)
  /-- `is_live` in `open_session`. -/
  | openedLive (marker : Option Nat) (session : Nat) (asked : Bool)
  /-- `is_live` in `reuse`. -/
  | pooledLive (session : Nat) (asked : Bool)
  deriving DecidableEq, Repr

/-- Where the task of an invocation stands. A `close` carries what follows it: the end of the task,
or `finish_open` with an error. An `invalidate` leaves the key lost or replaceable. -/
inductive Phase
  | checkout
  | select (arm : Arm) (polled : Bool)
  | finishOpen (marker : Nat) (opened : Except NodeRunnerError Nat)
  | invalidate (key : SessionKey) (session : Nat) (lost : Bool)
  | close (session : Nat) (resume : Option (Nat × NodeRunnerError))
  | closing (session : Nat) (resume : Option (Nat × NodeRunnerError))
  | bind (lease : SessionBinding)
  | drive (lease : SessionBinding)
  | finishLease (lease : SessionBinding) (clean : Bool)
  | returned
  | finished

/-- The task of one registered invocation. -/
structure Task where
  key : ActiveKey
  nodeInstance : NodeInstanceId
  scope : SessionScope
  cancel : Bool
  phase : Phase

/-- `reusable_key` of a run-scoped pool. -/
def Task.sessionKey (task : Task) : SessionKey :=
  ⟨task.key.runId, task.nodeInstance⟩

/-- The result of `open_session`: it goes to `finish_open` where there is a marker, else it is the
result of `checkout`. -/
def Phase.afterOpen (marker : Option Nat) (opened : Except NodeRunnerError Nat) : Phase :=
  match marker, opened with
  | some marker, opened => .finishOpen marker opened
  | none, .ok session => .bind ⟨session, .execution⟩
  | none, .error _ => .returned

/-- What follows a `close`. -/
def Phase.afterClose : Option (Nat × NodeRunnerError) → Phase
  | none => .returned
  | some (marker, error) => .finishOpen marker (.error error)

/-- The cancellation arm was taken. -/
def Arm.cancelled : Arm → Phase
  | .ready _ => .returned
  | .factory marker => .afterOpen marker (.error .cancelled)
  | .openedLive marker session _ => .close session (marker.map fun marker => (marker, .cancelled))
  | .pooledLive _ _ => .returned

/-! ## Closing a run -/

/-- `ActivityCloseTarget`: the task whose `done` is awaited, and its binding. -/
structure ActivityCloseTarget where
  task : Nat
  binding : Option SessionBinding
  deriving DecidableEq, Repr

/-- `EntryToClose`. -/
inductive EntryToClose
  | session (session : Nat)
  | opening (marker : Nat)
  deriving DecidableEq, Repr

/-- Where the current call of `close_run` stands: what is left of its loop, and its targets. -/
inductive CloseRun
  | idle
  | cancelling (rest targets : List ActivityCloseTarget)
  | bound (rest targets : List ActivityCloseTarget)
  | boundClose (session : Nat) (rest targets : List ActivityCloseTarget)
  | boundClosing (session : Nat) (rest targets : List ActivityCloseTarget)
  | entries (rest : List EntryToClose) (targets : List ActivityCloseTarget)
  | entryClosing (session : Nat) (rest : List EntryToClose) (targets : List ActivityCloseTarget)
  | waiting (rest : List ActivityCloseTarget)
  deriving DecidableEq, Repr

/-! ## The runner -/

/-- `ActiveInvocation`: the cancel and done channels are those of the task. -/
structure ActiveInvocation where
  task : Nat
  binding : Option SessionBinding
  deriving DecidableEq, Repr

/-- The registry, the pool, the tasks ever registered, the sessions the factory ever returned and
the calls of `close_run`. -/
structure NodeRunner where
  active : OrdMap ActiveKey ActiveInvocation
  closedRuns : List RunId
  entries : OrdMap SessionKey SessionEntry
  tasks : List Task
  sessions : List ManagedSession
  markers : Nat
  ready : List Nat
  closes : RunId → CloseRun
  closeReturned : List RunId

def NodeRunner.initial : NodeRunner :=
  ⟨[], [], [], [], [], 0, [], fun _ => .idle, []⟩

/-- What the outside answers to a step of a task. -/
inductive Answer
  | go
  | pending
  | session
  | failed (error : NodeRunnerError)
  | live (answer : Bool)
  | driven (clean : Bool)
  deriving DecidableEq, Repr

inductive Event
  | start (key : ActiveKey) (nodeInstance : NodeInstanceId) (scope : SessionScope)
  | cancel (task : Nat)
  | task (task : Nat) (answer : Answer)
  | closeRun (run : RunId)
  deriving DecidableEq, Repr

/-! ## Steps of a task -/

namespace NodeRunner

variable (s : NodeRunner) (i : Nat) (t : Task)

/-- The task goes on to `phase`. -/
def goto (phase : Phase) : NodeRunner :=
  { s with tasks := s.tasks.set i { t with phase := phase } }

/-- `ActivityRegistry::register`, and the task it is for. -/
def register (key : ActiveKey) (nodeInstance : NodeInstanceId) (scope : SessionScope) :
    Option NodeRunner :=
  if key.runId ∈ s.closedRuns then none
  else
    match OrdMap.get? s.active key with
    | some _ => none
    | none =>
      some
        { s with
          active := OrdMap.insert key ⟨s.tasks.length, none⟩ s.active
          tasks := s.tasks ++ [⟨key, nodeInstance, scope, false, .checkout⟩] }

/-- `checkout`, up to its first wait: `checkout_action` for a reusable key. -/
def checkout : NodeRunner :=
  match t.scope with
  | .execution => s.goto i t (.select (.factory none) false)
  | .nodeInstance =>
    match OrdMap.get? s.entries t.sessionKey with
    | some .lost => s.goto i t .returned
    | some (.live session) => s.goto i t (.select (.pooledLive session false) false)
    | some (.opening marker) => s.goto i t (.select (.ready marker) false)
    | none | some .replaceable =>
      { s.goto i t (.select (.factory (some s.markers)) false) with
        markers := s.markers + 1
        entries := OrdMap.insert t.sessionKey (.opening s.markers) s.entries }

/-- The factory returned a session. -/
def opened (marker : Option Nat) : NodeRunner :=
  { s.goto i t (.select (.openedLive marker s.sessions.length false) false) with
    sessions := s.sessions ++ [⟨t.key.runId, false, 0, false⟩] }

/-- The closed flag of a session. -/
def isClosed (session : Nat) : Bool :=
  match s.sessions[session]? with
  | some managed => managed.closed
  | none => false

/-- The rest of `open_session` once `is_live` has answered. -/
def openedLive (marker : Option Nat) (session : Nat) (live : Bool) : NodeRunner :=
  if live then s.goto i t (.afterOpen marker (.ok session))
  else s.goto i t (.close session (marker.map fun marker => (marker, .sessionOpen)))

/-- The rest of `reuse` once `is_live` has answered. -/
def pooledLive (session : Nat) (live : Bool) : NodeRunner :=
  if live then s.goto i t (.bind ⟨session, .reusable t.sessionKey⟩)
  else s.goto i t (.invalidate t.sessionKey session true)

/-- `finish_open`: the marker decides whether the key is still this task's to fill. -/
def finishOpen (marker : Nat) (opened : Except NodeRunnerError Nat) : NodeRunner :=
  let s := { s with ready := marker :: s.ready }
  if OrdMap.get? s.entries t.sessionKey = some (.opening marker) then
    match opened with
    | .ok session =>
      { s.goto i t (.bind ⟨session, .reusable t.sessionKey⟩) with
        entries := OrdMap.insert t.sessionKey (.live session) s.entries }
    | .error error =>
      if error = .cancelled then
        { s.goto i t .returned with entries := OrdMap.insert t.sessionKey .lost s.entries }
      else { s.goto i t .returned with entries := OrdMap.remove s.entries t.sessionKey }
  else
    match opened with
    | .ok session => s.goto i t (.close session none)
    | .error _ => s.goto i t .returned

/-- The locked part of `invalidate`. -/
def replaceLive (key : SessionKey) (session : Nat) (next : SessionEntry) : NodeRunner :=
  if OrdMap.get? s.entries key = some (.live session) then
    { s with entries := OrdMap.insert key next s.entries }
  else s

/-- The swap of `ManagedSession::close` found the flag unset, and the inner `close` is called. -/
def markClosed (session : Nat) : NodeRunner :=
  { s with
    sessions := s.sessions.modify session fun managed =>
      { managed with closed := true, closeCalls := managed.closeCalls + 1 } }

/-- The inner `close` has returned. -/
def markReturned (session : Nat) : NodeRunner :=
  { s with
    sessions := s.sessions.modify session fun managed => { managed with closeReturned := true } }

/-- `ActivityToken::bind_session`; a refusal finishes the lease unclean. -/
def bindSession (lease : SessionBinding) : NodeRunner :=
  if t.key.runId ∈ s.closedRuns then s.goto i t (.finishLease lease false)
  else
    match OrdMap.get? s.active t.key with
    | none => s.goto i t (.finishLease lease false)
    | some active =>
      { s.goto i t (.drive lease) with
        active := OrdMap.insert t.key { active with binding := some lease } s.active }

/-- `SessionLease::finish`, up to its first wait. -/
def finishLease (lease : SessionBinding) (clean : Bool) : NodeRunner :=
  match lease.kind with
  | .execution => s.goto i t (.close lease.session none)
  | .reusable key =>
    if clean then s.goto i t .returned
    else s.goto i t (.invalidate key lease.session false)

/-- `ActivityToken::finish`. -/
def finish : NodeRunner :=
  { s.goto i t .finished with active := OrdMap.remove s.active t.key }

/-- One step of the task of an invocation. -/
def stepTask (answer : Answer) : Option NodeRunner :=
  match t.phase, answer with
  | .checkout, .go => some (s.checkout i t)
  | .select arm false, .go =>
    some (if t.cancel then s.goto i t arm.cancelled else s.goto i t (.select arm true))
  | .select arm true, .pending => some (s.goto i t (.select arm false))
  | .select (.ready marker) true, .go =>
    if marker ∈ s.ready then some (s.goto i t .checkout) else none
  | .select (.factory marker) true, .session => some (s.opened i t marker)
  | .select (.factory marker) true, .failed error =>
    some (s.goto i t (.afterOpen marker (.error error)))
  | .select (.openedLive marker session false) true, .go =>
    some
      (if s.isClosed session then s.openedLive i t marker session false
        else s.goto i t (.select (.openedLive marker session true) true))
  | .select (.openedLive marker session true) true, .live live =>
    some (s.openedLive i t marker session live)
  | .select (.pooledLive session false) true, .go =>
    some
      (if s.isClosed session then s.pooledLive i t session false
        else s.goto i t (.select (.pooledLive session true) true))
  | .select (.pooledLive session true) true, .live live => some (s.pooledLive i t session live)
  | .finishOpen marker opened, .go => some (s.finishOpen i t marker opened)
  | .invalidate key session lost, .go =>
    some
      ((s.goto i t (.close session none)).replaceLive key session
        (if lost then .lost else .replaceable))
  | .close session resume, .go =>
    some
      (if s.isClosed session then s.goto i t (.afterClose resume)
        else (s.goto i t (.closing session resume)).markClosed session)
  | .closing session resume, .go =>
    some ((s.goto i t (.afterClose resume)).markReturned session)
  | .bind lease, .go => some (s.bindSession i t lease)
  | .drive lease, .driven clean => some (s.goto i t (.finishLease lease clean))
  | .finishLease lease clean, .go => some (s.finishLease i t lease clean)
  | .returned, .go => some (s.finish i t)
  | _, _ => none

/-! ## Steps of `close_run` -/

/-- The current call of `close_run` goes on to `phase`. -/
def closeGoto (run : RunId) (phase : CloseRun) : NodeRunner :=
  { s with closes := Function.update s.closes run phase }

/-- The targets of `begin_close`, in key order. -/
def closeTargets (run : RunId) : List ActivityCloseTarget :=
  (s.active.filter fun entry => entry.1.runId == run).map fun entry =>
    ⟨entry.2.task, entry.2.binding⟩

/-- `cancel.send(true)`. -/
def cancelTask (task : Nat) : NodeRunner :=
  { s with tasks := s.tasks.modify task fun t => { t with cancel := true } }

/-- What `SessionPool::close_run` takes out of the entries of a run. -/
def entriesToClose (run : RunId) : List EntryToClose :=
  s.entries.filterMap fun entry =>
    if entry.1.runId = run then
      match entry.2 with
      | .live session => some (.session session)
      | .opening marker => some (.opening marker)
      | .replaceable | .lost => none
    else none

/-- The locked part of `SessionPool::close_run`: every entry of the run is lost. -/
def loseEntries (run : RunId) : NodeRunner :=
  { s with
    entries := s.entries.map fun entry =>
      if entry.1.runId = run then (entry.1, .lost) else entry }

/-- `done` of a target has been sent. -/
def isDone (task : Nat) : Bool :=
  match s.tasks[task]? with
  | some ⟨_, _, _, _, .finished⟩ => true
  | _ => false

/-- One step of the call of `close_run` for `run`, or its start. -/
def stepClose (run : RunId) : Option NodeRunner :=
  match s.closes run with
  | .idle =>
    some
      { s.closeGoto run (.cancelling (s.closeTargets run) (s.closeTargets run)) with
        closedRuns := run :: s.closedRuns }
  | .cancelling (target :: rest) targets =>
    some ((s.cancelTask target.task).closeGoto run (.cancelling rest targets))
  | .cancelling [] targets => some (s.closeGoto run (.bound targets targets))
  | .bound (⟨_, none⟩ :: rest) targets => some (s.closeGoto run (.bound rest targets))
  | .bound (⟨_, some ⟨session, .execution⟩⟩ :: rest) targets =>
    some (s.closeGoto run (.boundClose session rest targets))
  | .bound (⟨_, some ⟨session, .reusable key⟩⟩ :: rest) targets =>
    some
      ((s.closeGoto run (.boundClose session rest targets)).replaceLive key session .replaceable)
  | .bound [] targets =>
    some ((s.closeGoto run (.entries (s.entriesToClose run) targets)).loseEntries run)
  | .boundClose session rest targets =>
    some
      (if s.isClosed session then s.closeGoto run (.bound rest targets)
        else (s.closeGoto run (.boundClosing session rest targets)).markClosed session)
  | .boundClosing session rest targets =>
    some ((s.closeGoto run (.bound rest targets)).markReturned session)
  | .entries (.session session :: rest) targets =>
    some
      (if s.isClosed session then s.closeGoto run (.entries rest targets)
        else (s.closeGoto run (.entryClosing session rest targets)).markClosed session)
  | .entries (.opening marker :: rest) targets =>
    some { s.closeGoto run (.entries rest targets) with ready := marker :: s.ready }
  | .entries [] targets => some (s.closeGoto run (.waiting targets))
  | .entryClosing session rest targets =>
    some ((s.closeGoto run (.entries rest targets)).markReturned session)
  | .waiting (target :: rest) =>
    if s.isDone target.task then some (s.closeGoto run (.waiting rest)) else none
  | .waiting [] =>
    some { s.closeGoto run .idle with closeReturned := run :: s.closeReturned }

end NodeRunner

/-- One step of the runner. -/
def step (event : Event) (s : NodeRunner) : Option NodeRunner :=
  match event with
  | .start key nodeInstance scope => s.register key nodeInstance scope
  | .cancel task => some (s.cancelTask task)
  | .task task answer => (s.tasks[task]?).bind fun t => s.stepTask task t answer
  | .closeRun run => s.stepClose run

end Zeroshot.Runner
