import Mathlib.Logic.Function.Basic
import Zeroshot.Ledger.Event
import Zeroshot.Lib.Machine

set_option autoImplicit false

/-!
# Durable output

The bridge between the senders of a node execution and the durable log writer: a bounded queue of
events, and a bounded side queue that terminal events take once cancellation has begun. A terminal
event the side queue has no room for is rejected and leaves a flag behind, which becomes an
incompleteness marker when both queues have closed and drained.

Every sender call and the receiver are cut into the single operations other threads can come in
between: loading and storing the shared flags, one operation on one queue, one closure check. A
sender call that waits for room is granted a permit before it uses it. `step` is the machine of all
these operations; a run is any interleaving of them.

* `durable_output_lossless`: along every run nothing sent is lost, duplicated or reordered, markers
  come at most once and only at the end, and `Closed` only when nothing is left to say; a receiver
  that keeps asking after the senders are gone is told so.
-/

namespace Zeroshot.DurableOutput

/-! ## Events -/

inductive LiveOutputStream
  | output
  | error
  | system
  deriving DecidableEq, Repr

/-- `LiveOutput`. -/
structure LiveOutput where
  stream : LiveOutputStream
  text : String
  diagnostic : Option FailureDiagnosticKind
  deriving DecidableEq, Repr

/-- `DurableNodeEvent`. -/
inductive DurableNodeEvent
  | output (output : LiveOutput) (timestamp : Nat)
  | tokenUsage (usage : Option Ledger.TokenUsageDelta)
  deriving DecidableEq

/-- What an overflow loses. -/
inductive Kind
  | usage
  | diagnostics
  deriving DecidableEq, Repr

/-- The flag a rejected terminal event sets. -/
def DurableNodeEvent.kind : DurableNodeEvent → Kind
  | .tokenUsage _ => .usage
  | .output _ _ => .diagnostics

/-- The incompleteness the event reports. -/
def DurableNodeEvent.marks : DurableNodeEvent → Option Kind
  | .tokenUsage none => some .usage
  | .output live _ =>
    if live.diagnostic = some .incomplete then some .diagnostics else none
  | .tokenUsage (some _) => none

/-- The marker `take_overflow_marker` makes. -/
def Kind.marker (now : Nat) : Kind → DurableNodeEvent
  | usage => .tokenUsage none
  | diagnostics => .output
    ⟨.error, "Some diagnostic output was lost while execution was settling", some .incomplete⟩ now

@[simp] theorem Kind.marks_marker (kind : Kind) (now : Nat) :
    (kind.marker now : DurableNodeEvent).marks = some kind := by
  cases kind <;> rfl

/-! ## The state -/

/-- Where an operation of a sender call stands. -/
inductive CallPhase
  /-- `events.send` in `send`. -/
  | sending
  /-- `cancelled_terminal_active.load` in `send_terminal`. -/
  | load
  /-- `events.try_send`. -/
  | tryEvents
  /-- `events.reserve`. -/
  | reserving
  /-- `cancelled_terminal_active.store`. -/
  | redirect
  /-- `cancelled_terminal.try_send` in `try_send_cancelled_terminal`. -/
  | tryTerminal
  /-- The store of the overflow flag. -/
  | flag
  deriving DecidableEq, Repr

/-- The room of the event queue a call waits for, or was given. -/
inductive Permit
  | none
  | waiting
  | granted
  deriving DecidableEq, Repr

/-- A call of `send` or `send_terminal` in progress. `send_terminal` keeps the future of
`events.reserve` until it returns, so a cancelled call may still wait for room or be given it. -/
structure Call where
  event : DurableNodeEvent
  phase : CallPhase
  permit : Permit
  deriving DecidableEq

def Call.granted (call : Call) : Bool := call.permit = .granted

/-- Which call the receiver is in: `recv`, or `recv_many` with room for some more events after the
next one. -/
inductive Caller
  | recv
  | recvMany (remaining : Nat)
  deriving DecidableEq, Repr

/-- Where `try_recv` was called: at the top of the loop of `recv`, at the end of `recv_pending`, in
`closed_result`, or in the loop of `recv_many`. -/
inductive Context
  | start
  | pending
  | closed
  | collect
  deriving DecidableEq, Repr

/-- Where the receiver stands. -/
inductive Stage
  | tryEvents (context : Context)
  | tryTerminal (context : Context)
  /-- The first closure check of `recv_pending`. -/
  | checkEvents
  | checkTerminal (eventsClosed : Bool)
  /-- The two branches of `select!`. -/
  | selectEvents
  | selectTerminal
  | awaitEvents
  | awaitTerminal
  /-- The closure checks of `closed_result`. -/
  | closedEvents
  | closedTerminal
  /-- The two swaps of `take_overflow_marker`. -/
  | take (kind : Kind)
  deriving DecidableEq, Repr

inductive Phase
  | idle
  | active (caller : Caller) (stage : Stage)
  deriving DecidableEq, Repr

/-- Where a received event came from. -/
inductive Source
  | events
  | cancelledTerminal
  | marker
  deriving DecidableEq, Repr

/-- The shared state, the calls in progress, the receiver, and what has happened so far. -/
structure State where
  events : List DurableNodeEvent
  cancelledTerminal : List DurableNodeEvent
  cancelledTerminalActive : Bool
  terminalOverflow : Kind → Bool
  /-- The whole senders. -/
  senders : Nat
  /-- The senders that have dropped `events` and not yet `cancelled_terminal`. -/
  dropping : Nat
  calls : List Call
  incompleteEmitted : Kind → Bool
  phase : Phase
  /-- The events whose call returned `Ok`, with their queue. -/
  sent : List (Source × DurableNodeEvent)
  /-- The kinds of the terminal events rejected for overflow. -/
  rejected : List Kind
  received : List (Source × DurableNodeEvent)
  /-- `Closed` was returned. -/
  closed : Bool

/-- `durable_event_channel`. -/
def State.initial : State where
  events := []
  cancelledTerminal := []
  cancelledTerminalActive := false
  terminalOverflow := fun _ => false
  senders := 1
  dropping := 0
  calls := []
  incompleteEmitted := fun _ => false
  phase := .idle
  sent := []
  rejected := []
  received := []
  closed := false

namespace State

/-- `receiver.is_closed`: no sender holds `events`. -/
def eventsClosed (s : State) : Bool := s.senders = 0

/-- `cancelled_terminal.is_closed`. -/
def terminalClosed (s : State) : Bool := s.senders = 0 && s.dropping = 0

/-- The room of the event queue: what is neither filled nor promised. -/
def hasRoom (capacity : Nat) (s : State) : Bool :=
  s.events.length + (s.calls.filter Call.granted).length < capacity

end State

/-! ## Sender calls -/

/-- Replace one call in progress. -/
def State.setCall (s : State) (call next : Call) : State :=
  { s with calls := next :: s.calls.erase call }

/-- The call returned. -/
def State.endCall (s : State) (call : Call) : State :=
  { s with calls := s.calls.erase call }

/-- The call put its event on the event queue and returned `Ok`. -/
def State.pushEvents (s : State) (call : Call) : State :=
  { s.endCall call with
    events := s.events ++ [call.event]
    sent := s.sent ++ [(.events, call.event)] }

/-- The call put its event on the side queue and returned `Ok`. -/
def State.pushTerminal (s : State) (call : Call) : State :=
  { s.endCall call with
    cancelledTerminal := s.cancelledTerminal ++ [call.event]
    sent := s.sent ++ [(.cancelledTerminal, call.event)] }

/-- The next operation of a call; `cancelled` says whether its cancellation is seen first. -/
def advance (capacity terminalCapacity : Nat) (call : Call) (cancelled : Bool)
    (s : State) : Option State :=
  match call.phase with
  | .sending =>
    if cancelled then some (s.endCall call)
    else if call.granted then some (s.pushEvents call) else none
  | .load =>
    let phase := if s.cancelledTerminalActive then .tryTerminal else .tryEvents
    some (s.setCall call { call with phase })
  | .tryEvents =>
    if s.hasRoom capacity then some (s.pushEvents call)
    else some (s.setCall call { call with phase := .reserving, permit := .waiting })
  | .reserving =>
    if cancelled then some (s.setCall call { call with phase := .redirect })
    else if call.granted then some (s.pushEvents call) else none
  | .redirect =>
    some { s.setCall call { call with phase := .tryTerminal } with
      cancelledTerminalActive := true }
  | .tryTerminal =>
    if s.cancelledTerminal.length < terminalCapacity then some (s.pushTerminal call)
    else some (s.setCall call { call with phase := .flag })
  | .flag => some { s.endCall call with
      terminalOverflow := Function.update s.terminalOverflow call.event.kind true
      rejected := s.rejected ++ [call.event.kind] }

/-! ## The receiver -/

/-- `observe`, and what the receiver does with an event it got. -/
def deliver (caller : Caller) (source : Source) (event : DurableNodeEvent) (s : State) :
    State :=
  { s with
    incompleteEmitted := fun kind => s.incompleteEmitted kind || decide (event.marks = some kind)
    received := s.received ++ [(source, event)]
    phase :=
      match caller with
      | .recv | .recvMany 0 => .idle
      | .recvMany (remaining + 1) => .active (.recvMany remaining) (.tryEvents .collect) }

/-- Take the head of the event queue, or go on. -/
def popEvents (caller : Caller) (s other : State) : State :=
  match s.events with
  | event :: events => deliver caller .events event { s with events }
  | [] => other

/-- Take the head of the side queue, or go on. -/
def popTerminal (caller : Caller) (s other : State) : State :=
  match s.cancelledTerminal with
  | event :: events =>
    deliver caller .cancelledTerminal event { s with cancelledTerminal := events }
  | [] => other

/-- The next operation of the receiver, at a stage of a call. -/
def receiveAt (now : Nat) (caller : Caller) (stage : Stage) (s : State) : State :=
  let goTo (stage : Stage) : State := { s with phase := .active caller stage }
  match stage with
  | .tryEvents context => popEvents caller s (goTo (.tryTerminal context))
  | .tryTerminal context => popTerminal caller s
    (match context with
      | .start => goTo .checkEvents
      | .pending => goTo .closedEvents
      | .closed => goTo (.take .usage)
      | .collect => { s with phase := .idle })
  | .checkEvents => goTo (.checkTerminal s.eventsClosed)
  | .checkTerminal eventsClosed =>
    match eventsClosed, s.terminalClosed with
    | false, false => goTo .selectEvents
    | false, true => goTo .awaitEvents
    | true, false => goTo .awaitTerminal
    | true, true => goTo (.tryEvents .pending)
  | .selectEvents =>
    popEvents caller s (goTo (if s.eventsClosed then .closedEvents else .selectTerminal))
  | .selectTerminal =>
    popTerminal caller s (goTo (if s.terminalClosed then .closedEvents else .selectEvents))
  | .awaitEvents =>
    popEvents caller s (goTo (if s.eventsClosed then .closedEvents else .awaitEvents))
  | .awaitTerminal =>
    popTerminal caller s (goTo (if s.terminalClosed then .closedEvents else .awaitTerminal))
  | .closedEvents => goTo (if s.eventsClosed then .closedTerminal else .tryEvents .start)
  | .closedTerminal => goTo (if s.terminalClosed then .tryEvents .closed else .tryEvents .start)
  | .take kind =>
    let swapped := { s with terminalOverflow := Function.update s.terminalOverflow kind false }
    if s.terminalOverflow kind && !s.incompleteEmitted kind then
      deliver caller .marker (kind.marker now) swapped
    else
      match kind with
      | .usage => { swapped with phase := .active caller (.take .diagnostics) }
      | .diagnostics => { swapped with phase := .idle, closed := true }

/-- The next operation of the receiver. -/
def receive (now : Nat) (s : State) : Option State :=
  match s.phase with
  | .idle => none
  | .active caller stage => some (receiveAt now caller stage s)

/-! ## The machine -/

inductive Action
  | clone
  | dropEvents
  | dropTerminal
  | send (event : DurableNodeEvent)
  | sendTerminal (event : DurableNodeEvent)
  | grant (call : Call)
  | advance (call : Call) (cancelled : Bool)
  | abandon (call : Call)
  | markDiagnosticsIncomplete
  | recv
  | recvMany (limit : Nat)
  | receive (now : Nat)
  | abandonReceive

/-- A call of `send_terminal` at its start. -/
def terminalCall (event : DurableNodeEvent) : Call := ⟨event, .load, .none⟩

/-- A call of `send` at its start: error output is terminal. -/
def sendCall : DurableNodeEvent → Call
  | .output ⟨.error, text, diagnostic⟩ now => terminalCall (.output ⟨.error, text, diagnostic⟩ now)
  | event => ⟨event, .sending, .waiting⟩

/-- The stages at which `recv` awaits. -/
def Stage.awaits : Stage → Bool
  | selectEvents | selectTerminal | awaitEvents | awaitTerminal => true
  | _ => false

/-- One operation of a sender, of a call in progress or of the receiver. A sender that a call still
borrows is not dropped. -/
def step (capacity terminalCapacity : Nat) : Action → State → Option State
  | .clone, s => if 0 < s.senders then some { s with senders := s.senders + 1 } else none
  | .dropEvents, s =>
    if 1 < s.senders ∨ (0 < s.senders ∧ s.calls = []) then
      some { s with
        senders := s.senders - 1
        dropping := s.dropping + 1 }
    else none
  | .dropTerminal, s =>
    if 0 < s.dropping then some { s with dropping := s.dropping - 1 } else none
  | .send event, s =>
    if 0 < s.senders then some { s with calls := sendCall event :: s.calls } else none
  | .sendTerminal event, s =>
    if 0 < s.senders then some { s with calls := terminalCall event :: s.calls } else none
  | .grant call, s =>
    if call ∈ s.calls ∧ s.hasRoom capacity = true ∧ call.permit = .waiting then
      some (s.setCall call { call with permit := .granted })
    else none
  | .advance call cancelled, s =>
    if call ∈ s.calls then advance capacity terminalCapacity call cancelled s else none
  | .abandon call, s =>
    if call ∈ s.calls then
      match call.phase with
      | .sending | .reserving => some (s.endCall call)
      | _ => none
    else none
  | .markDiagnosticsIncomplete, s =>
    if 0 < s.senders then
      some { s with terminalOverflow := Function.update s.terminalOverflow .diagnostics true }
    else none
  | .recv, s =>
    if s.phase = .idle then some { s with phase := .active .recv (.tryEvents .start) } else none
  | .recvMany limit, s =>
    if s.phase = .idle ∧ 0 < limit then
      some { s with phase := .active (.recvMany (limit - 1)) (.tryEvents .start) }
    else none
  | .receive now, s => receive now s
  | .abandonReceive, s =>
    match s.phase with
    | .active _ stage => if stage.awaits then some { s with phase := .idle } else none
    | .idle => none

/-! ## The invariant -/

/-- The events of a log that passed one queue, in order. -/
def passed (source : Source) (log : List (Source × DurableNodeEvent)) : List DurableNodeEvent :=
  (log.filter fun entry => entry.1 = source).map Prod.snd

/-- The received events that report an incompleteness. -/
def marking (kind : Kind) (log : List (Source × DurableNodeEvent)) :
    List (Source × DurableNodeEvent) :=
  log.filter fun entry => entry.2.marks = some kind

@[simp] theorem passed_append (source : Source) (log log' : List (Source × DurableNodeEvent)) :
    passed source (log ++ log') = passed source log ++ passed source log' := by
  simp [passed]

@[simp] theorem passed_self (source : Source) (event : DurableNodeEvent) :
    passed source [(source, event)] = [event] := by
  simp [passed]

theorem passed_other {source source' : Source} (h : source' ≠ source) (event : DurableNodeEvent) :
    passed source [(source', event)] = [] := by
  simp [passed, h]

namespace State

/-- Every sender is gone and both queues are empty. -/
def Drained (s : State) : Prop :=
  s.senders = 0 ∧ s.dropping = 0 ∧ s.events = [] ∧ s.cancelledTerminal = []

/-- What the receiver has seen when it is at a stage of `closed_result`. -/
def AtStage (s : State) : Stage → Prop
  | .closedTerminal => s.senders = 0
  | .tryEvents .closed => s.senders = 0 ∧ s.dropping = 0
  | .tryTerminal .closed => s.senders = 0 ∧ s.dropping = 0 ∧ s.events = []
  | .take .usage => s.Drained
  | .take .diagnostics => s.Drained ∧ s.terminalOverflow .usage = false
  | _ => True

/-- The invariant of every run. -/
structure Inv (s : State) : Prop where
  /-- What was sent on a queue was received from it or is still there. -/
  events : passed .events s.sent = passed .events s.received ++ s.events
  terminal : passed .cancelledTerminal s.sent =
    passed .cancelledTerminal s.received ++ s.cancelledTerminal
  /-- A call in progress borrows a sender. -/
  borrowed : s.calls ≠ [] → 0 < s.senders
  emitted : ∀ kind, s.incompleteEmitted kind = true ↔ marking kind s.received ≠ []
  overflow : ∀ kind ∈ s.rejected,
    s.terminalOverflow kind = true ∨ s.incompleteEmitted kind = true
  /-- A trailing marker comes last, and nothing else reports its kind. -/
  trailing : ∀ entry ∈ s.received, entry.1 = .marker → s.Drained ∧
    ∃ kind, entry.2.marks = some kind ∧ marking kind s.received = [entry]
  stage : ∀ caller stage, s.phase = .active caller stage → s.AtStage stage
  closed : s.closed = true → s.Drained ∧ ∀ kind, s.terminalOverflow kind = false

namespace Inv

variable {s t : State}

theorem initial : Inv State.initial where
  events := rfl
  terminal := rfl
  borrowed h := absurd rfl h
  emitted kind := by simp [State.initial, marking]
  overflow _ h := absurd h List.not_mem_nil
  trailing _ h := absurd h List.not_mem_nil
  stage _ _ h := by cases h
  closed h := by cases h

/-- An operation of the senders, while there is one: the receiver has not seen the end. -/
theorem of_sender (h : Inv s) (hsenders : 0 < s.senders) (hreceived : t.received = s.received)
    (hemitted : t.incompleteEmitted = s.incompleteEmitted) (hphase : t.phase = s.phase)
    (hclosed : t.closed = s.closed)
    (hevents : passed .events t.sent = passed .events s.received ++ t.events)
    (hterminal : passed .cancelledTerminal t.sent =
      passed .cancelledTerminal s.received ++ t.cancelledTerminal)
    (hborrowed : t.calls ≠ [] → 0 < t.senders)
    (hoverflow : ∀ kind ∈ t.rejected,
      t.terminalOverflow kind = true ∨ s.incompleteEmitted kind = true) : Inv t where
  events := by rw [hevents, hreceived]
  terminal := by rw [hterminal, hreceived]
  borrowed := hborrowed
  emitted kind := by rw [hemitted, hreceived]; exact h.emitted kind
  overflow kind hkind := by rw [hemitted]; exact hoverflow kind hkind
  trailing entry hentry hmarker := by
    rw [hreceived] at hentry
    have hgone := (h.trailing entry hentry hmarker).1.1
    omega
  stage caller stage hstage := by
    rw [hphase] at hstage
    have hat := h.stage caller stage hstage
    cases stage with
    | closedTerminal =>
      have hgone : s.senders = 0 := hat
      omega
    | tryEvents context =>
      cases context with
      | closed =>
        have hgone : s.senders = 0 ∧ s.dropping = 0 := hat
        omega
      | _ => exact trivial
    | tryTerminal context =>
      cases context with
      | closed =>
        have hgone : s.senders = 0 ∧ s.dropping = 0 ∧ s.events = [] := hat
        omega
      | _ => exact trivial
    | take kind =>
      cases kind with
      | usage =>
        have hgone : s.Drained := hat
        have := hgone.1
        omega
      | diagnostics =>
        have hgone : s.Drained ∧ _ := hat
        have := hgone.1.1
        omega
    | _ => exact trivial
  closed hclosed' := by
    rw [hclosed] at hclosed'
    have hgone := (h.closed hclosed').1.1
    omega

/-- The receiver moves to another stage. -/
theorem setPhase (h : Inv s) {phase : Phase}
    (hstage : ∀ caller stage, phase = .active caller stage → s.AtStage stage) :
    Inv { s with phase } where
  events := h.events
  terminal := h.terminal
  borrowed := h.borrowed
  emitted := h.emitted
  overflow := h.overflow
  trailing := h.trailing
  stage := hstage
  closed := h.closed

theorem goTo (h : Inv s) (caller : Caller) {stage : Stage} (hstage : s.AtStage stage) :
    Inv { s with phase := .active caller stage } := by
  refine h.setPhase fun caller' stage' heq => ?_
  cases heq
  exact hstage

theorem marking_append (kind : Kind) (log log' : List (Source × DurableNodeEvent)) :
    marking kind (log ++ log') = marking kind log ++ marking kind log' := by
  simp [marking]

theorem deliver_atStage (caller : Caller) (source : Source) (event : DurableNodeEvent)
    (s t : State) :
    ∀ caller' stage, (deliver caller source event s).phase = .active caller' stage →
      t.AtStage stage := by
  intro caller' stage hphase
  cases caller with
  | recv => cases hphase
  | recvMany remaining =>
    cases remaining <;> cases hphase
    exact trivial

theorem deliver_emitted (h : Inv s) (source : Source) (event : DurableNodeEvent) (kind : Kind) :
    (s.incompleteEmitted kind || decide (event.marks = some kind)) = true ↔
      marking kind (s.received ++ [(source, event)]) ≠ [] := by
  rw [Bool.or_eq_true, h.emitted kind, marking_append]
  by_cases hmarks : event.marks = some kind
  · simp [hmarks, marking]
  · simp [hmarks, marking]

/-- The receiver takes an event from a queue. -/
theorem deliver_queued (h : Inv s) {source : Source} (hsource : source ≠ .marker)
    (hbusy : ¬ s.Drained) (caller : Caller) {event : DurableNodeEvent}
    {events terminal : List DurableNodeEvent}
    (hevents : passed .events s.sent = passed .events (s.received ++ [(source, event)]) ++ events)
    (hterminal : passed .cancelledTerminal s.sent =
      passed .cancelledTerminal (s.received ++ [(source, event)]) ++ terminal) :
    Inv (deliver caller source event { s with events, cancelledTerminal := terminal }) where
  events := hevents
  terminal := hterminal
  borrowed := h.borrowed
  emitted := h.deliver_emitted source event
  overflow kind hkind := by
    rcases h.overflow kind hkind with hflag | hemitted
    · exact .inl hflag
    · exact .inr (Bool.or_eq_true_iff.mpr (.inl hemitted))
  trailing entry hentry hmarker := by
    rcases List.mem_append.mp hentry with hold | hnew
    · exact absurd (h.trailing entry hold hmarker).1 hbusy
    · rw [List.mem_singleton.mp hnew] at hmarker
      exact absurd hmarker hsource
  stage := deliver_atStage caller source event _ _
  closed hclosed := absurd (h.closed hclosed).1 hbusy

theorem popEvents (h : Inv s) (caller : Caller) {other : State}
    (hother : s.events = [] → Inv other) :
    Inv (DurableOutput.popEvents caller s other) := by
  rw [DurableOutput.popEvents]
  cases hevents : s.events with
  | nil => exact hother hevents
  | cons event events =>
    have hqueued : Source.events ≠ .marker := by decide
    refine h.deliver_queued hqueued (fun hdrained => ?_) caller ?_ ?_
    · have := hdrained.2.2.1
      rw [hevents] at this
      cases this
    · rw [h.events, hevents, passed_append, passed_self, List.append_assoc]
      rfl
    · rw [h.terminal, passed_append, passed_other (by decide), List.append_nil]

theorem popTerminal (h : Inv s) (caller : Caller) {other : State}
    (hother : s.cancelledTerminal = [] → Inv other) :
    Inv (DurableOutput.popTerminal caller s other) := by
  rw [DurableOutput.popTerminal]
  cases hterminal : s.cancelledTerminal with
  | nil => exact hother hterminal
  | cons event terminal =>
    have hqueued : Source.cancelledTerminal ≠ .marker := by decide
    refine h.deliver_queued hqueued (fun hdrained => ?_) caller ?_ ?_
    · have := hdrained.2.2.2
      rw [hterminal] at this
      cases this
    · rw [h.events, passed_append, passed_other (by decide), List.append_nil]
    · rw [h.terminal, hterminal, passed_append, passed_self, List.append_assoc]
      rfl

/-- The receiver takes the overflow flag of a kind, once everything is closed and drained. -/
theorem deliver_marker (h : Inv s) (hdrained : s.Drained) {kind : Kind}
    (hflag : s.terminalOverflow kind = true) (hnew : s.incompleteEmitted kind = false)
    (caller : Caller) (now : Nat) :
    Inv (deliver caller .marker (kind.marker now)
      { s with terminalOverflow := Function.update s.terminalOverflow kind false }) where
  events := by
    change passed .events s.sent = passed .events (s.received ++ _) ++ s.events
    rw [passed_append, passed_other (by decide), List.append_nil, h.events]
  terminal := by
    change passed .cancelledTerminal s.sent =
      passed .cancelledTerminal (s.received ++ _) ++ s.cancelledTerminal
    rw [passed_append, passed_other (by decide), List.append_nil, h.terminal]
  borrowed := h.borrowed
  emitted := h.deliver_emitted .marker (kind.marker now)
  overflow other hother := by
    by_cases hkind : other = kind
    · refine .inr (Bool.or_eq_true_iff.mpr (.inr ?_))
      rw [hkind, Kind.marks_marker, decide_eq_true_eq]
    · rcases h.overflow other hother with hset | hemitted
      · refine .inl ?_
        change Function.update s.terminalOverflow kind false other = true
        rw [Function.update_of_ne hkind, hset]
      · exact .inr (Bool.or_eq_true_iff.mpr (.inl hemitted))
  trailing entry hentry hmarker := by
    have hnone : marking kind s.received = [] := by
      by_contra hsome
      rw [(h.emitted kind).mpr hsome] at hnew
      cases hnew
    refine ⟨hdrained, ?_⟩
    rcases List.mem_append.mp hentry with hold | hlast
    · obtain ⟨other, hmarks, hsingle⟩ := (h.trailing entry hold hmarker).2
      refine ⟨other, hmarks, ?_⟩
      have hother : kind ≠ other := by
        intro heq
        rw [← heq, hnone] at hsingle
        cases hsingle
      change marking other (s.received ++ [(.marker, kind.marker now)]) = [entry]
      rw [marking_append, hsingle]
      simp [marking, hother]
    · rw [List.mem_singleton.mp hlast]
      refine ⟨kind, Kind.marks_marker kind now, ?_⟩
      change marking kind (s.received ++ [(.marker, kind.marker now)]) = _
      rw [marking_append, hnone]
      simp [marking]
  stage := deliver_atStage caller .marker _ _ _
  closed hclosed := by
    have := (h.closed hclosed).2 kind
    rw [hflag] at this
    cases this

/-- The receiver takes an overflow flag that says nothing new. -/
theorem swap (h : Inv s) {kind : Kind}
    (hold : s.terminalOverflow kind = false ∨ s.incompleteEmitted kind = true) :
    Inv { s with
      terminalOverflow := Function.update s.terminalOverflow kind false
      phase := .idle } where
  events := h.events
  terminal := h.terminal
  borrowed := h.borrowed
  emitted := h.emitted
  overflow other hother := by
    change Function.update s.terminalOverflow kind false other = true ∨ _
    by_cases hkind : other = kind
    · subst hkind
      rcases h.overflow other hother with hset | hemitted
      · rcases hold with hclear | hemitted
        · rw [hclear] at hset
          cases hset
        · exact .inr hemitted
      · exact .inr hemitted
    · rw [Function.update_of_ne hkind]
      exact h.overflow other hother
  trailing := h.trailing
  stage _ _ hphase := by cases hphase
  closed hclosed := by
    obtain ⟨hdrained, hflags⟩ := h.closed hclosed
    refine ⟨hdrained, fun other => ?_⟩
    change Function.update s.terminalOverflow kind false other = false
    by_cases hkind : other = kind
    · rw [hkind, Function.update_self]
    · rw [Function.update_of_ne hkind, hflags]

/-- A sender goes for good: only the first closure check of `closed_result` may have passed. -/
theorem dropTerminal (h : Inv s) (hdropping : 0 < s.dropping) :
    Inv { s with dropping := s.dropping - 1 } where
  events := h.events
  terminal := h.terminal
  borrowed := h.borrowed
  emitted := h.emitted
  overflow := h.overflow
  trailing entry hentry hmarker := by
    have hgone := (h.trailing entry hentry hmarker).1.2.1
    omega
  stage caller stage hphase := by
    have hat := h.stage caller stage hphase
    cases stage with
    | closedTerminal => exact hat
    | tryEvents context =>
      cases context with
      | closed => exact absurd hat.2 (by omega)
      | _ => exact trivial
    | tryTerminal context =>
      cases context with
      | closed => exact absurd hat.2.1 (by omega)
      | _ => exact trivial
    | take kind =>
      cases kind with
      | usage => exact absurd hat.2.1 (by omega)
      | diagnostics => exact absurd hat.1.2.1 (by omega)
    | _ => exact trivial
  closed hclosed := by
    have hgone := (h.closed hclosed).1.2.1
    omega

theorem eventsClosed_iff (s : State) : s.eventsClosed = true ↔ s.senders = 0 := by
  simp [eventsClosed]

theorem terminalClosed_iff (s : State) :
    s.terminalClosed = true ↔ s.senders = 0 ∧ s.dropping = 0 := by
  simp [terminalClosed]

/-- **The receiver keeps the invariant**, stage by stage. -/
theorem receiveAt (h : Inv s) {caller : Caller} {stage : Stage} (hstage : s.AtStage stage)
    (now : Nat) : Inv (DurableOutput.receiveAt now caller stage s) := by
  cases stage with
  | tryEvents context =>
    refine h.popEvents caller fun hempty => h.goTo caller ?_
    cases context with
    | closed => exact ⟨hstage.1, hstage.2, hempty⟩
    | _ => exact trivial
  | tryTerminal context =>
    refine h.popTerminal caller fun hempty => ?_
    cases context with
    | start => exact h.goTo caller trivial
    | pending => exact h.goTo caller trivial
    | closed => exact h.goTo caller ⟨hstage.1, hstage.2.1, hstage.2.2, hempty⟩
    | collect => exact h.setPhase fun _ _ heq => (by cases heq)
  | checkEvents => exact h.goTo caller trivial
  | checkTerminal eventsClosed =>
    unfold DurableOutput.receiveAt
    cases eventsClosed <;> cases s.terminalClosed <;> exact h.goTo caller trivial
  | selectEvents =>
    refine h.popEvents caller fun _ => h.goTo caller ?_
    cases s.eventsClosed <;> exact trivial
  | selectTerminal =>
    refine h.popTerminal caller fun _ => h.goTo caller ?_
    cases s.terminalClosed <;> exact trivial
  | awaitEvents =>
    refine h.popEvents caller fun _ => h.goTo caller ?_
    cases s.eventsClosed <;> exact trivial
  | awaitTerminal =>
    refine h.popTerminal caller fun _ => h.goTo caller ?_
    cases s.terminalClosed <;> exact trivial
  | closedEvents =>
    refine h.goTo caller ?_
    cases hclosed : s.eventsClosed with
    | true => exact (eventsClosed_iff s).mp hclosed
    | false => exact trivial
  | closedTerminal =>
    refine h.goTo caller ?_
    cases hclosed : s.terminalClosed with
    | true => exact (terminalClosed_iff s).mp hclosed
    | false => exact trivial
  | take kind =>
    have hdrained : s.Drained := by
      cases kind with
      | usage => exact hstage
      | diagnostics => exact hstage.1
    unfold DurableOutput.receiveAt
    by_cases hmarker : (s.terminalOverflow kind && !s.incompleteEmitted kind) = true
    · dsimp only
      rw [if_pos hmarker]
      rw [Bool.and_eq_true, Bool.not_eq_true'] at hmarker
      exact h.deliver_marker hdrained hmarker.1 hmarker.2 caller now
    · dsimp only
      rw [if_neg hmarker]
      have hold : s.terminalOverflow kind = false ∨ s.incompleteEmitted kind = true := by
        cases hflag : s.terminalOverflow kind <;> cases hemitted : s.incompleteEmitted kind <;>
          simp_all
      have hswap := h.swap hold
      have hclear : Function.update s.terminalOverflow kind false kind = false :=
        Function.update_self _ _ _
      cases kind with
      | usage => exact hswap.goTo caller ⟨hdrained, hclear⟩
      | diagnostics =>
        have husage : Function.update s.terminalOverflow .diagnostics false .usage = false := by
          rw [Function.update_of_ne (by decide)]
          exact hstage.2
        refine ⟨hswap.events, hswap.terminal, hswap.borrowed, hswap.emitted, hswap.overflow,
          hswap.trailing, hswap.stage, fun _ => ⟨hdrained, fun other => ?_⟩⟩
        cases other with
        | usage => exact husage
        | diagnostics => exact hclear

end Inv

end State

/-! ## Runs -/

open State

section Runs

variable {capacity terminalCapacity : Nat} {s t : State}

theorem Inv_setCall (h : s.Inv) {call : Call} (hcall : call ∈ s.calls) (next : Call) :
    (s.setCall call next).Inv := by
  have hsenders := h.borrowed (List.ne_nil_of_mem hcall)
  exact h.of_sender hsenders rfl rfl rfl rfl h.events h.terminal (fun _ => hsenders) h.overflow

theorem Inv_endCall (h : s.Inv) {call : Call} (hcall : call ∈ s.calls) : (s.endCall call).Inv := by
  have hsenders := h.borrowed (List.ne_nil_of_mem hcall)
  exact h.of_sender hsenders rfl rfl rfl rfl h.events h.terminal (fun _ => hsenders) h.overflow

theorem Inv_pushEvents (h : s.Inv) {call : Call} (hcall : call ∈ s.calls) :
    (s.pushEvents call).Inv := by
  have hsenders := h.borrowed (List.ne_nil_of_mem hcall)
  refine h.of_sender hsenders rfl rfl rfl rfl ?_ ?_ (fun _ => hsenders) h.overflow
  · change passed .events (s.sent ++ _) = passed .events s.received ++ (s.events ++ [call.event])
    rw [passed_append, passed_self, h.events, List.append_assoc]
  · change passed .cancelledTerminal (s.sent ++ _) = _
    rw [passed_append, passed_other (by decide), List.append_nil, h.terminal]
    rfl

theorem Inv_pushTerminal (h : s.Inv) {call : Call} (hcall : call ∈ s.calls) :
    (s.pushTerminal call).Inv := by
  have hsenders := h.borrowed (List.ne_nil_of_mem hcall)
  refine h.of_sender hsenders rfl rfl rfl rfl ?_ ?_ (fun _ => hsenders) h.overflow
  · change passed .events (s.sent ++ _) = _
    rw [passed_append, passed_other (by decide), List.append_nil, h.events]
    rfl
  · change passed .cancelledTerminal (s.sent ++ _) =
      passed .cancelledTerminal s.received ++ (s.cancelledTerminal ++ [call.event])
    rw [passed_append, passed_self, h.terminal, List.append_assoc]

theorem Inv_advance (h : s.Inv) {call : Call} (hcall : call ∈ s.calls) {cancelled : Bool}
    (hstep : advance capacity terminalCapacity call cancelled s = some t) : t.Inv := by
  have hsenders := h.borrowed (List.ne_nil_of_mem hcall)
  unfold advance at hstep
  cases hphase : call.phase with
  | sending =>
    simp only [hphase] at hstep
    split at hstep
    · cases hstep
      exact Inv_endCall h hcall
    · split at hstep
      · cases hstep
        exact Inv_pushEvents h hcall
      · cases hstep
  | load =>
    simp only [hphase] at hstep
    cases hstep
    exact Inv_setCall h hcall _
  | tryEvents =>
    simp only [hphase] at hstep
    split at hstep <;> cases hstep
    · exact Inv_pushEvents h hcall
    · exact Inv_setCall h hcall _
  | reserving =>
    simp only [hphase] at hstep
    split at hstep
    · cases hstep
      exact Inv_setCall h hcall _
    · split at hstep
      · cases hstep
        exact Inv_pushEvents h hcall
      · cases hstep
  | redirect =>
    simp only [hphase] at hstep
    cases hstep
    exact h.of_sender hsenders rfl rfl rfl rfl h.events h.terminal (fun _ => hsenders) h.overflow
  | tryTerminal =>
    simp only [hphase] at hstep
    split at hstep <;> cases hstep
    · exact Inv_pushTerminal h hcall
    · exact Inv_setCall h hcall _
  | flag =>
    simp only [hphase] at hstep
    cases hstep
    refine h.of_sender hsenders rfl rfl rfl rfl h.events h.terminal (fun _ => hsenders) ?_
    intro kind hkind
    change Function.update s.terminalOverflow call.event.kind true kind = true ∨ _
    by_cases hown : kind = call.event.kind
    · exact .inl (by rw [hown, Function.update_self])
    · rw [Function.update_of_ne hown]
      rcases List.mem_append.mp hkind with hearlier | hlast
      · exact h.overflow kind hearlier
      · exact absurd (List.mem_singleton.mp hlast) hown

/-- **Every operation keeps the invariant.** -/
theorem Inv_step {action : Action} (hstep : step capacity terminalCapacity action s = some t)
    (h : s.Inv) : t.Inv := by
  cases action with
  | clone =>
    simp only [step] at hstep
    split at hstep
    · rename_i hsenders
      cases hstep
      exact h.of_sender hsenders rfl rfl rfl rfl h.events h.terminal (fun _ => Nat.succ_pos _)
        h.overflow
    · cases hstep
  | dropEvents =>
    simp only [step] at hstep
    split at hstep
    · rename_i hsenders
      cases hstep
      refine h.of_sender (by omega) rfl rfl rfl rfl h.events h.terminal (fun hcalls => ?_)
        h.overflow
      rcases hsenders with hmany | hlast
      · change 0 < s.senders - 1
        omega
      · exact absurd hlast.2 hcalls
    · cases hstep
  | dropTerminal =>
    simp only [step] at hstep
    split at hstep
    · rename_i hdropping
      cases hstep
      exact h.dropTerminal hdropping
    · cases hstep
  | send event =>
    simp only [step] at hstep
    split at hstep
    · rename_i hsenders
      cases hstep
      exact h.of_sender hsenders rfl rfl rfl rfl h.events h.terminal (fun _ => hsenders) h.overflow
    · cases hstep
  | sendTerminal event =>
    simp only [step] at hstep
    split at hstep
    · rename_i hsenders
      cases hstep
      exact h.of_sender hsenders rfl rfl rfl rfl h.events h.terminal (fun _ => hsenders) h.overflow
    · cases hstep
  | grant call =>
    simp only [step] at hstep
    split at hstep
    · rename_i hgrant
      cases hstep
      exact Inv_setCall h hgrant.1 _
    · cases hstep
  | advance call cancelled =>
    simp only [step] at hstep
    split at hstep
    · rename_i hcall
      exact Inv_advance h hcall hstep
    · cases hstep
  | abandon call =>
    simp only [step] at hstep
    split at hstep
    · rename_i hcall
      split at hstep <;> cases hstep
      · exact Inv_endCall h hcall
      · exact Inv_endCall h hcall
    · cases hstep
  | markDiagnosticsIncomplete =>
    simp only [step] at hstep
    split at hstep
    · rename_i hsenders
      cases hstep
      refine h.of_sender hsenders rfl rfl rfl rfl h.events h.terminal (fun _ => hsenders) ?_
      intro kind hkind
      change Function.update s.terminalOverflow .diagnostics true kind = true ∨ _
      by_cases hown : kind = .diagnostics
      · exact .inl (by rw [hown, Function.update_self])
      · rw [Function.update_of_ne hown]
        exact h.overflow kind hkind
    · cases hstep
  | recv =>
    simp only [step] at hstep
    split at hstep
    · cases hstep
      exact h.goTo .recv trivial
    · cases hstep
  | recvMany limit =>
    simp only [step] at hstep
    split at hstep
    · cases hstep
      exact h.goTo (.recvMany (limit - 1)) trivial
    · cases hstep
  | receive now =>
    simp only [step, receive] at hstep
    split at hstep
    · cases hstep
    · rename_i caller stage hphase
      cases hstep
      exact h.receiveAt (h.stage caller stage hphase) now
  | abandonReceive =>
    simp only [step] at hstep
    split at hstep
    · split at hstep
      · cases hstep
        exact h.setPhase fun _ _ heq => (by cases heq)
      · cases hstep
    · cases hstep

/-! ### After the senders -/

/-- A receiver that keeps asking: the next operation of its call, or the first of a new `recv`. -/
def drain (now : Nat) (s : State) : State :=
  match s.phase with
  | .idle => { s with phase := .active .recv (.tryEvents .start) }
  | .active caller stage => receiveAt now caller stage s

theorem exists_action_drain (now : Nat) (s : State) :
    ∃ action, step capacity terminalCapacity action s = some (drain now s) := by
  rw [drain]
  cases hphase : s.phase with
  | idle => exact ⟨.recv, by rw [step, if_pos hphase]⟩
  | active caller stage => exact ⟨.receive now, by rw [step, receive, hphase]⟩

/-- A marker of the kind is still to come. -/
def outstanding (s : State) (kind : Kind) : Nat :=
  (s.terminalOverflow kind && !s.incompleteEmitted kind).toNat

/-- What the receiver has yet to hand out. -/
def remaining (s : State) : Nat :=
  s.events.length + s.cancelledTerminal.length + outstanding s .usage + outstanding s .diagnostics

/-- How far the receiver is from a result, when every sender is gone. -/
def rank : Phase → Nat
  | .active _ (.tryEvents .collect) => 16
  | .active _ (.tryTerminal .collect) => 15
  | .idle => 14
  | .active _ (.tryEvents .start) => 13
  | .active _ (.tryTerminal .start) => 12
  | .active _ .checkEvents => 11
  | .active _ (.checkTerminal _) => 10
  | .active _ (.tryEvents .pending) => 9
  | .active _ .selectEvents | .active _ .selectTerminal => 9
  | .active _ .awaitEvents | .active _ .awaitTerminal => 9
  | .active _ (.tryTerminal .pending) => 8
  | .active _ .closedEvents => 7
  | .active _ .closedTerminal => 6
  | .active _ (.tryEvents .closed) => 5
  | .active _ (.tryTerminal .closed) => 4
  | .active _ (.take .usage) => 3
  | .active _ (.take .diagnostics) => 2

def toDo (s : State) : Nat := remaining s * 17 + rank s.phase

theorem rank_le (phase : Phase) : rank phase ≤ 16 := by
  unfold rank
  split <;> decide

theorem outstanding_deliver_le (s : State) (caller : Caller) (source : Source)
    (event : DurableNodeEvent) (kind : Kind) :
    outstanding (deliver caller source event s) kind ≤ outstanding s kind := by
  simp only [outstanding, deliver]
  cases s.terminalOverflow kind <;> cases s.incompleteEmitted kind <;>
    cases decide (event.marks = some kind) <;> decide

theorem remaining_deliver_le (s : State) (caller : Caller) (source : Source)
    (event : DurableNodeEvent) : remaining (deliver caller source event s) ≤ remaining s := by
  have husage := outstanding_deliver_le s caller source event .usage
  have hdiagnostics := outstanding_deliver_le s caller source event .diagnostics
  change s.events.length + s.cancelledTerminal.length + _ + _ ≤ _
  rw [remaining]
  omega

/-- Handing out an event leaves less to do, whatever follows. -/
theorem toDo_deliver_lt {s : State} {caller : Caller} {source : Source} {event : DurableNodeEvent}
    {events terminal : List DurableNodeEvent}
    (hlength : events.length + terminal.length < s.events.length + s.cancelledTerminal.length) :
    toDo (deliver caller source event { s with events, cancelledTerminal := terminal }) <
      toDo s := by
  have hle := remaining_deliver_le { s with events, cancelledTerminal := terminal } caller source
    event
  have hrank := rank_le (deliver caller source event
    { s with events, cancelledTerminal := terminal }).phase
  have hless : remaining { s with events, cancelledTerminal := terminal } + 1 ≤ remaining s := by
    change
      events.length + terminal.length + outstanding s .usage + outstanding s .diagnostics + 1 ≤ _
    rw [remaining]
    omega
  rw [toDo, toDo]
  omega

theorem toDo_popEvents_lt {s other : State} {caller : Caller}
    (hother : toDo other < toDo s) : toDo (popEvents caller s other) < toDo s := by
  rw [popEvents]
  cases hevents : s.events with
  | nil => exact hother
  | cons event events => exact toDo_deliver_lt (by rw [hevents, List.length_cons]; omega)

theorem toDo_popTerminal_lt {s other : State} {caller : Caller}
    (hother : toDo other < toDo s) : toDo (popTerminal caller s other) < toDo s := by
  rw [popTerminal]
  cases hterminal : s.cancelledTerminal with
  | nil => exact hother
  | cons event terminal => exact toDo_deliver_lt (by rw [hterminal, List.length_cons]; omega)

theorem toDo_goTo_lt {s : State} {phase : Phase} (h : rank phase < rank s.phase) :
    toDo { s with phase } < toDo s := by
  change remaining s * 17 + rank phase < remaining s * 17 + rank s.phase
  omega

/-- Taking the flag of a kind takes its marker out of what remains. -/
theorem remaining_swap (s : State) (kind : Kind) :
    remaining { s with terminalOverflow := Function.update s.terminalOverflow kind false } +
      outstanding s kind = remaining s := by
  cases kind with
  | usage =>
    simp [remaining, outstanding, Function.update]
    omega
  | diagnostics => simp [remaining, outstanding, Function.update]

/-- Without senders every operation of the receiver brings it closer to `Closed`. -/
theorem toDo_receiveAt_lt {s : State} (hsenders : s.senders = 0) (hdropping : s.dropping = 0)
    {caller : Caller} {stage : Stage} (hphase : s.phase = .active caller stage) (now : Nat) :
    (receiveAt now caller stage s).closed = true ∨
      toDo (receiveAt now caller stage s) < toDo s := by
  have hevents : s.eventsClosed = true := (Inv.eventsClosed_iff s).mpr hsenders
  have hterminal : s.terminalClosed = true := (Inv.terminalClosed_iff s).mpr ⟨hsenders, hdropping⟩
  have hgo : ∀ phase, rank phase < rank s.phase → toDo { s with phase } < toDo s :=
    fun _ => toDo_goTo_lt
  rw [hphase] at hgo
  cases stage with
  | tryEvents context =>
    exact .inr (toDo_popEvents_lt (hgo _ (by cases context <;> simp [rank])))
  | tryTerminal context =>
    refine .inr (toDo_popTerminal_lt ?_)
    cases context <;> exact hgo _ (by simp [rank])
  | checkEvents => exact .inr (hgo _ (by simp [rank]))
  | checkTerminal eventsClosed =>
    refine .inr ?_
    unfold receiveAt
    rw [hterminal]
    cases eventsClosed <;> exact hgo _ (by simp [rank])
  | selectEvents =>
    refine .inr (toDo_popEvents_lt ?_)
    rw [hevents]
    exact hgo _ (by simp [rank])
  | selectTerminal =>
    refine .inr (toDo_popTerminal_lt ?_)
    rw [hterminal]
    exact hgo _ (by simp [rank])
  | awaitEvents =>
    refine .inr (toDo_popEvents_lt ?_)
    rw [hevents]
    exact hgo _ (by simp [rank])
  | awaitTerminal =>
    refine .inr (toDo_popTerminal_lt ?_)
    rw [hterminal]
    exact hgo _ (by simp [rank])
  | closedEvents =>
    refine .inr ?_
    unfold receiveAt
    rw [hevents]
    exact hgo _ (by simp [rank])
  | closedTerminal =>
    refine .inr ?_
    unfold receiveAt
    rw [hterminal]
    exact hgo _ (by simp [rank])
  | take kind =>
    unfold receiveAt
    by_cases hmarker : (s.terminalOverflow kind && !s.incompleteEmitted kind) = true
    · dsimp only
      rw [if_pos hmarker]
      refine .inr ?_
      have hswap := remaining_swap s kind
      rw [outstanding, hmarker, Bool.toNat_true] at hswap
      have hrank := rank_le (deliver caller .marker (kind.marker now)
        { s with terminalOverflow := Function.update s.terminalOverflow kind false }).phase
      have hle := remaining_deliver_le
        { s with terminalOverflow := Function.update s.terminalOverflow kind false } caller .marker
        (kind.marker now)
      rw [toDo, toDo]
      omega
    · dsimp only
      rw [if_neg hmarker]
      cases kind with
      | usage =>
        have hswap := remaining_swap s .usage
        refine .inr ?_
        rw [toDo, toDo, hphase]
        change remaining { s with
            terminalOverflow := Function.update s.terminalOverflow .usage false } * 17 + 2 <
          _ * 17 + 3
        omega
      | diagnostics => exact .inl rfl

theorem senders_receiveAt (now : Nat) (caller : Caller) (stage : Stage) (s : State) :
    (receiveAt now caller stage s).senders = s.senders ∧
      (receiveAt now caller stage s).dropping = s.dropping := by
  have hevents : ∀ other : State, other.senders = s.senders ∧ other.dropping = s.dropping →
      (popEvents caller s other).senders = s.senders ∧
        (popEvents caller s other).dropping = s.dropping := by
    intro other hother
    rw [popEvents]
    cases s.events with
    | nil => exact hother
    | cons event events => exact ⟨rfl, rfl⟩
  have hterminal : ∀ other : State, other.senders = s.senders ∧ other.dropping = s.dropping →
      (popTerminal caller s other).senders = s.senders ∧
        (popTerminal caller s other).dropping = s.dropping := by
    intro other hother
    rw [popTerminal]
    cases s.cancelledTerminal with
    | nil => exact hother
    | cons event events => exact ⟨rfl, rfl⟩
  cases stage with
  | tryEvents context => exact hevents _ ⟨rfl, rfl⟩
  | tryTerminal context => cases context <;> exact hterminal _ ⟨rfl, rfl⟩
  | checkEvents => exact ⟨rfl, rfl⟩
  | checkTerminal eventsClosed =>
    unfold receiveAt
    cases eventsClosed <;> cases s.terminalClosed <;> exact ⟨rfl, rfl⟩
  | selectEvents => exact hevents _ ⟨rfl, rfl⟩
  | selectTerminal => exact hterminal _ ⟨rfl, rfl⟩
  | awaitEvents => exact hevents _ ⟨rfl, rfl⟩
  | awaitTerminal => exact hterminal _ ⟨rfl, rfl⟩
  | closedEvents => exact ⟨rfl, rfl⟩
  | closedTerminal => exact ⟨rfl, rfl⟩
  | take kind =>
    unfold receiveAt
    dsimp only
    split
    · exact ⟨rfl, rfl⟩
    · cases kind <;> exact ⟨rfl, rfl⟩

theorem senders_drain (now : Nat) (s : State) :
    (drain now s).senders = s.senders ∧ (drain now s).dropping = s.dropping := by
  rw [drain]
  cases s.phase with
  | idle => exact ⟨rfl, rfl⟩
  | active caller stage => exact senders_receiveAt now caller stage s

/-- **A receiver that keeps asking after the senders are gone is told `Closed`.** -/
theorem exists_drain_closed (now : Nat) {s : State} (hsenders : s.senders = 0)
    (hdropping : s.dropping = 0) : ∃ n, ((drain now)^[n] s).closed = true := by
  induction hbound : toDo s using Nat.strong_induction_on generalizing s with
  | _ bound ih =>
    have hsame := senders_drain now s
    have hnext : (drain now s).closed = true ∨ toDo (drain now s) < toDo s := by
      rw [drain]
      cases hphase : s.phase with
      | idle =>
        refine .inr (toDo_goTo_lt ?_)
        rw [hphase]
        decide
      | active caller stage => exact toDo_receiveAt_lt hsenders hdropping hphase now
    rcases hnext with hclosed | hless
    · exact ⟨1, hclosed⟩
    · obtain ⟨n, hn⟩ := ih (toDo (drain now s)) (hbound ▸ hless) (hsame.1.trans hsenders)
        (hsame.2.trans hdropping) rfl
      exact ⟨n + 1, hn⟩

/-- **Durable output is lossless or visibly incomplete.** After every run: what was sent on a queue
is what was received from it followed by what is still queued; a trailing marker comes after both
queues closed and drained, and is the only received event of its kind; once `Closed` was returned
every sender is gone, both queues are empty, and each kind of a rejected terminal event has been
reported. When the senders are gone, a receiver that keeps asking is told `Closed`. -/
theorem durable_output_lossless (capacity terminalCapacity : Nat) (actions : List Action)
    (s : State) (h : Machine.run (step capacity terminalCapacity) actions .initial = some s) :
    (passed .events s.sent = passed .events s.received ++ s.events ∧
      passed .cancelledTerminal s.sent =
        passed .cancelledTerminal s.received ++ s.cancelledTerminal) ∧
    (∀ entry ∈ s.received, entry.1 = .marker → s.Drained ∧
      ∃ kind, entry.2.marks = some kind ∧ marking kind s.received = [entry]) ∧
    (s.closed = true → s.Drained ∧
      (∀ kind ∈ s.rejected, ∃ entry ∈ s.received, entry.2.marks = some kind) ∧
      ∀ kind, outstanding s kind = 0) ∧
    (s.senders = 0 → s.dropping = 0 → ∀ now, ∃ n, ((drain now)^[n] s).closed = true) := by
  have hinv : s.Inv := Machine.run_invariant (fun _ _ _ => Inv_step) h Inv.initial
  refine ⟨⟨hinv.events, hinv.terminal⟩, hinv.trailing, fun hclosed => ?_,
    fun hsenders hdropping now => exists_drain_closed now hsenders hdropping⟩
  obtain ⟨hdrained, hflags⟩ := hinv.closed hclosed
  refine ⟨hdrained, fun kind hkind => ?_, fun kind => ?_⟩
  · have hemitted := (hinv.overflow kind hkind).resolve_left (by rw [hflags kind]; decide)
    obtain ⟨entry, hentry⟩ := List.exists_mem_of_ne_nil _ ((hinv.emitted kind).mp hemitted)
    rw [marking, List.mem_filter, decide_eq_true_eq] at hentry
    exact ⟨entry, hentry⟩
  · rw [outstanding, hflags kind]
    rfl

/-- Three lines of error output over queues of one event each: the second is sent after its
cancellation, the third finds the side queue full. -/
def overflowRun : List Action :=
  let line (text : String) (phase : CallPhase) (permit : Permit) : Call :=
    ⟨.output ⟨.error, text, none⟩ 0, phase, permit⟩
  [.send (line "a" .load .none).event,
    .advance (line "a" .load .none) false, .advance (line "a" .tryEvents .none) false,
    .send (line "b" .load .none).event,
    .advance (line "b" .load .none) false, .advance (line "b" .tryEvents .none) false,
    .advance (line "b" .reserving .waiting) true, .advance (line "b" .redirect .waiting) false,
    .advance (line "b" .tryTerminal .waiting) false,
    .send (line "c" .load .none).event,
    .advance (line "c" .load .none) false, .advance (line "c" .tryTerminal .none) false,
    .advance (line "c" .flag .none) false,
    .dropEvents, .dropTerminal, .recvMany 8, .receive 1, .receive 1, .receive 1, .receive 1,
    .receive 1]

/-- The receiver of `overflowRun` has both lines that were sent, and is told that the third one is
lost before it is told `Closed`. -/
theorem durable_output_lossless_overflow :
    ∃ s, Machine.run (step 1 1) overflowRun .initial = some s ∧
      s.rejected = [.diagnostics] ∧
      passed .events s.sent = passed .events s.received ++ s.events ∧
      ∃ n, ((drain 1)^[n] s).closed = true := by
  obtain ⟨s, hrun, hrejected, hsenders, hdropping⟩ :
      ∃ s, Machine.run (step 1 1) overflowRun .initial = some s ∧ s.rejected = [.diagnostics] ∧
        s.senders = 0 ∧ s.dropping = 0 := ⟨_, rfl, rfl, rfl, rfl⟩
  have hlossless := durable_output_lossless 1 1 overflowRun s hrun
  exact ⟨s, hrun, hrejected, hlossless.1.1, hlossless.2.2.2 hsenders hdropping 1⟩

end Runs

end Zeroshot.DurableOutput
