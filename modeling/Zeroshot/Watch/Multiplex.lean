import Mathlib.Data.List.Nodup
import Mathlib.Logic.Function.Basic
import Zeroshot.Lib.Machine
import Zeroshot.Protocol.Payload

set_option autoImplicit false

/-!
# The demultiplexer of a client connection

Callers of `send_request` register the sender of a oneshot channel under their request id, write the
request, and await. The pump reads the lines of the peer: a response goes to the sender registered
under its id, after the queue of a freshly minted subscription has been registered; a notification
goes to the queue of its subscription. When the read half ends, `finish_pump` drains both maps.

A caller's registration, its write and its await are steps of their own, and so are the removal of a
pending sender and its use by the pump; a run is any interleaving of them. The decoder of lines is
a parameter.

* `demultiplexer_sound_iff`: no line is misrouted in any run; in every state of a run every request
  is answered, and every subscription has its notifications, if and only if no write succeeds for a
  request registered after the drain, and no response mints a subscription that is still in use.
-/

namespace Zeroshot.Multiplex

/-! ## Lines -/

/-- `RequestId`. -/
inductive RequestId
  | string (value : String)
  | integer (value : Int)
  deriving DecidableEq, Repr

/-- `RequestId::from_json_value`: a string, or a number that is an `i64`. -/
def RequestId.fromJsonValue : Value → Option RequestId
  | .string value => some (.string value)
  | .number (.int value) =>
    if -9223372036854775808 ≤ value ∧ value ≤ 9223372036854775807 then some (.integer value)
    else none
  | _ => none

/-- `SubscriptionId`. -/
structure SubscriptionId where
  value : String
  deriving DecidableEq, Repr

/-- `Value::get` by a key. -/
def getKey (key : String) : Value → Option Value
  | .object fields => fields.lookup key
  | _ => none

/-- `Value::as_str`. -/
def asStr : Value → Option String
  | .string value => some value
  | _ => none

/-- What the pump sees in a line. -/
inductive Message
  /-- Malformed, or without an identity. -/
  | unknown
  | notification (subscription : SubscriptionId) (terminal : Bool)
  | response (id : RequestId) (subscription : Option SubscriptionId)
  deriving DecidableEq, Repr

/-- The identity of a notification, as `forward_notification` reads it. -/
def notificationOf (value : Value) : Message :=
  match ((getKey "params" value).bind (getKey "subscriptionId")).bind asStr with
  | none => .unknown
  | some subscription =>
    .notification ⟨subscription⟩
      ((getKey "method" value).bind asStr = some "subscription/closed")

/-- The identity of a response, as `route_with_capacity` reads it. -/
def responseOf (value : Value) : Message :=
  match (getKey "id" value).bind RequestId.fromJsonValue with
  | none => .unknown
  | some id =>
    .response id
      ((((getKey "result" value).bind (getKey "subscriptionId")).bind asStr).map .mk)

/-- A line as `route_with_capacity` reads it; `fromStr` is `serde_json::from_str`. -/
def decode (fromStr : String → Option Value) (line : String) : Message :=
  match fromStr line with
  | none => .unknown
  | some value => if (getKey "method" value).isSome then notificationOf value else responseOf value

/-! ## The state -/

/-- `PumpedResponse`; the receiver of a subscription is named by the number of its queue. -/
structure PumpedResponse where
  line : String
  subscription : Option Nat
  deriving DecidableEq, Repr

/-- Where a call of `send_request` stands: in `sink.send_frame`, in `receiver.await`, or returned or
dropped. -/
inductive CallPhase
  | writing
  | awaiting
  | gone
  deriving DecidableEq, Repr

/-- A call that has registered, and what its oneshot channel holds. -/
structure Call where
  id : RequestId
  phase : CallPhase
  response : Option PumpedResponse
  deriving DecidableEq, Repr

/-- The queue of a subscription: everything put on it, how much of that has been taken, whether its
receiver is still held, and the overflow flag. `established` is the number of its establishing
response, `stop` how many lines the pump had read when the queue lost its registration, without the
line that cost it the registration unless it was put on the queue. -/
structure Queue where
  subscription : SubscriptionId
  lines : List String
  taken : Nat
  held : Bool
  overflowed : Bool
  established : Nat
  stop : Option Nat
  deriving DecidableEq, Repr

/-- Where the pump stands: at the next line, with the sender of a request it has taken out of the
pending map, in the write of a cancellation, or between or after the two statements of
`finish_pump`. -/
inductive Pump
  | reading
  | responding (call : Nat) (line : String) (subscription : Option SubscriptionId)
  | cancelling (subscription : SubscriptionId)
  | drained
  | finished
  deriving DecidableEq, Repr

/-- The two maps, the calls and the queues by number, the pump, the lines it has read, and which
line it handed to which call. -/
structure State where
  pending : RequestId → Option Nat
  subscriptions : SubscriptionId → Option Nat
  calls : List Call
  queues : List Queue
  pump : Pump
  read : List String
  handed : List (Nat × Nat)

def State.initial : State where
  pending := fun _ => none
  subscriptions := fun _ => none
  calls := []
  queues := []
  pump := .reading
  read := []
  handed := []

/-- `finish_pump` has drained the pending map. -/
def Pump.hasDrained : Pump → Bool
  | drained | finished => true
  | _ => false

namespace State

def setPhase (s : State) (call : Nat) (phase : CallPhase) : State :=
  { s with calls := s.calls.modify call fun c => { c with phase } }

/-- The receiver of a queue is dropped. -/
def dropReceiver (s : State) (queue : Nat) : State :=
  { s with queues := s.queues.modify queue fun q => { q with held := false } }

/-- The receiver of a oneshot channel is dropped with what the channel holds. -/
def dropResponse (s : State) (call : Call) : State :=
  match call.response.bind PumpedResponse.subscription with
  | none => s
  | some queue => s.dropReceiver queue

/-! ## Calls -/

/-- The first block of `send_request`. An id that is pending is an error of the call. -/
def register (s : State) (id : RequestId) : State :=
  match s.pending id with
  | some _ => s
  | none =>
    { s with
      pending := Function.update s.pending id (some s.calls.length)
      calls := s.calls ++ [⟨id, .writing, none⟩] }

/-- The write failed: the call removes what is registered under its id. -/
def writeFailed (s : State) (number : Nat) (call : Call) : State :=
  let s := { s with pending := Function.update s.pending call.id none }
  (s.dropResponse call).setPhase number .gone

/-- Whether the sender of a call is still held, in the map or by the pump. -/
def senderHeld (s : State) (number : Nat) (call : Call) : Bool :=
  s.pending call.id = some number ||
    match s.pump with
    | .responding holder _ _ => holder = number
    | _ => false

/-! ## The pump -/

/-- A queue loses its registration. -/
def unregister (s : State) (number : Nat) (subscription : SubscriptionId) (stop : Nat) : State :=
  { s with
    subscriptions := Function.update s.subscriptions subscription none
    queues := s.queues.modify number fun q => { q with stop := some stop } }

/-- `forward_notification`, with the notification the last line read: `try_send` on the registered
queue. A full or abandoned queue is cancelled with the server unless it is closing anyway. -/
def forwardNotification (capacity : Nat) (subscription : SubscriptionId) (terminal : Bool)
    (line : String) (s : State) : State :=
  match s.subscriptions subscription with
  | none => s
  | some number =>
    match s.queues[number]? with
    | none => s
    | some queue =>
      let cancel : Pump := if terminal then .reading else .cancelling subscription
      if !queue.held then
        { s.unregister number subscription (s.read.length - 1) with pump := cancel }
      else if queue.lines.length - queue.taken < capacity then
        let put := { s with
          queues := s.queues.modify number fun q => { q with lines := q.lines ++ [line] } }
        if terminal then put.unregister number subscription s.read.length else put
      else
        let flagged := { s with
          queues := s.queues.modify number fun q => { q with overflowed := true } }
        { flagged.unregister number subscription (s.read.length - 1) with pump := cancel }

/-- `route_with_capacity`, up to the removal of a pending sender. -/
def route (fromStr : String → Option Value) (capacity : Nat) (line : String) (s : State) : State :=
  let s := { s with read := s.read ++ [line] }
  match decode fromStr line with
  | .unknown => s
  | .notification subscription terminal =>
    forwardNotification capacity subscription terminal line s
  | .response id subscription =>
    match s.pending id with
    | none => s
    | some call =>
      { s with
        pending := Function.update s.pending id none
        pump := .responding call line subscription }

/-- A response mints a subscription: its queue takes over the registration. -/
def mint (s : State) (subscription : SubscriptionId) : State :=
  let replaced :=
    match s.subscriptions subscription with
    | none => s.queues
    | some number => s.queues.modify number fun q => { q with stop := some (s.read.length - 1) }
  { s with
    subscriptions := Function.update s.subscriptions subscription (some s.queues.length)
    queues := replaced ++ [⟨subscription, [], 0, true, false, s.read.length - 1, none⟩] }

/-- `sender.send`: the response is handed to the call, or dropped when the call is gone. -/
def sendResponse (s : State) (number : Nat) (response : PumpedResponse) : State :=
  match s.calls[number]? with
  | none => s
  | some call =>
    if call.phase = .gone then
      s.dropResponse { call with response := some response }
    else
      { s with
        calls := s.calls.modify number fun c => { c with response := some response }
        handed := s.handed ++ [(s.read.length - 1, number)] }

/-- The rest of `route_with_capacity` for a response. -/
def respond (s : State) (call : Nat) (line : String) (subscription : Option SubscriptionId) :
    State :=
  let s := { s with pump := .reading }
  match subscription with
  | none => s.sendResponse call ⟨line, none⟩
  | some minted => (s.mint minted).sendResponse call ⟨line, some s.queues.length⟩

/-- The first statement of `finish_pump`. -/
def drain (s : State) : State := { s with pending := fun _ => none, pump := .drained }

/-- The second statement of `finish_pump`. -/
def clear (s : State) : State :=
  { s with
    subscriptions := fun _ => none
    queues := s.queues.map fun q => { q with stop := q.stop.or (some s.read.length) }
    pump := .finished }

end State

/-! ## The machine -/

inductive Action
  | register (id : RequestId)
  | written (call : Nat)
  | writeFailed (call : Nat)
  /-- `receiver.await` is ready. -/
  | wake (call : Nat)
  /-- The caller is dropped at one of its two awaits. -/
  | dropCall (call : Nat)
  /-- The pump reads a line. -/
  | line (line : String)
  /-- The pump uses the sender it has taken. -/
  | respond
  /-- The pump has written a cancellation, or failed to. -/
  | cancelled
  /-- The read half ends. -/
  | drain
  | clear
  /-- The consumer of a subscription takes a line. -/
  | take (queue : Nat)
  /-- The holder of the receiver of a subscription drops it. -/
  | dropReceiver (queue : Nat)
  deriving DecidableEq, Repr

/-- One step of a caller, of the pump, or of a consumer. -/
def step (fromStr : String → Option Value) (capacity : Nat) : Action → State → Option State
  | .register id, s => some (s.register id)
  | .written number, s => do
    let call ← s.calls[number]?
    if call.phase = .writing then some (s.setPhase number .awaiting) else none
  | .writeFailed number, s => do
    let call ← s.calls[number]?
    if call.phase = .writing then some (s.writeFailed number call) else none
  | .wake number, s => do
    let call ← s.calls[number]?
    if call.phase = .awaiting ∧ (call.response.isSome ∨ s.senderHeld number call = false) then
      some (s.setPhase number .gone)
    else none
  | .dropCall number, s => do
    let call ← s.calls[number]?
    if call.phase = .gone then none else some ((s.dropResponse call).setPhase number .gone)
  | .line line, s =>
    if s.pump = .reading then some (s.route fromStr capacity line) else none
  | .respond, s =>
    match s.pump with
    | .responding call line subscription => some (s.respond call line subscription)
    | _ => none
  | .cancelled, s =>
    match s.pump with
    | .cancelling _ => some { s with pump := .reading }
    | _ => none
  | .drain, s => if s.pump = .reading then some s.drain else none
  | .clear, s => if s.pump = .drained then some s.clear else none
  | .take number, s => do
    let queue ← s.queues[number]?
    if queue.held ∧ queue.taken < queue.lines.length then
      some { s with queues := s.queues.modify number fun q => { q with taken := q.taken + 1 } }
    else none
  | .dropReceiver number, s => some (s.dropReceiver number)

/-! ## What a run guarantees -/

section Guarantees

variable (fromStr : String → Option Value)

/-- A line is a notification of a subscription. -/
def notifies (subscription : SubscriptionId) (line : String) : Bool :=
  decode fromStr line = .notification subscription false ||
    decode fromStr line = .notification subscription true

/-- A line is the terminal notification of a subscription. -/
def closes (subscription : SubscriptionId) (line : String) : Bool :=
  decode fromStr line = .notification subscription true

/-- The notifications of a subscription among the lines after its establishing response. -/
def notifications (subscription : SubscriptionId) (established stop : Nat) (read : List String) :
    List String :=
  ((read.take stop).drop (established + 1)).filter (notifies fromStr subscription)

/-- A response line is handed only to the call registered under its id, and a line and a call at
most once. -/
structure Routed (s : State) : Prop where
  own : ∀ entry ∈ s.handed, ∃ (call : Call) (line : String) (subscription : Option SubscriptionId),
    s.calls[entry.2]? = some call ∧
    s.read[entry.1]? = some line ∧ decode fromStr line = .response call.id subscription
  lineOnce : (s.handed.map Prod.fst).Nodup
  callOnce : (s.handed.map Prod.snd).Nodup

/-- A queue that stopped had to stop before the later queues of its subscription began. -/
def Exclusive (queues : List Queue) : Prop :=
  ∀ (i j : Nat) (queue later : Queue), i < j → queues[i]? = some queue → queues[j]? = some later →
    queue.subscription = later.subscription →
    ∃ stop, queue.stop = some stop ∧ stop ≤ later.established

/-- What was put on a queue are the notifications of its subscription, in the order they arrived,
from its establishing response to where it stopped; no other queue had them. -/
structure Notified (s : State) : Prop where
  lines : ∀ (number : Nat) (queue : Queue), s.queues[number]? = some queue →
    queue.lines = notifications fromStr queue.subscription queue.established
      (queue.stop.getD s.read.length) s.read
  exclusive : Exclusive s.queues

/-- The subscription closed, overflowed or was abandoned, or the connection ended. -/
def Over (s : State) (queue : Queue) : Prop :=
  (∃ line ∈ queue.lines, closes fromStr queue.subscription line = true) ∨
    queue.overflowed = true ∨ queue.held = false ∨ s.pump = .finished

/-- A queue stops only when its subscription is over. -/
def Continued (s : State) : Prop :=
  ∀ (number : Nat) (queue : Queue), s.queues[number]? = some queue → queue.stop ≠ none →
    Over fromStr s queue

/-- Once the pump has ended, no call awaits with its sender in the pending map. -/
def Answered (s : State) : Prop :=
  s.pump.hasDrained = true → ∀ (number : Nat) (call : Call), s.calls[number]? = some call →
    call.phase = .awaiting → ∀ id, s.pending id ≠ some number

/-- The subscription the response in the hands of the pump mints. -/
def Pump.minting : Pump → Option SubscriptionId
  | responding _ _ subscription => subscription
  | _ => none

/-- The steps the guarantees depend on: no write succeeds for a call that registered after the
drain, and no response mints a subscription whose queue is in use. -/
def Spared : Action → State → Prop
  | .written number, s =>
    s.pump.hasDrained = true → ∀ call ∈ s.calls[number]?, s.pending call.id ≠ some number
  | .respond, s => ∀ subscription ∈ s.pump.minting, ∀ number ∈ s.subscriptions subscription,
    ∀ queue ∈ s.queues[number]?, queue.held = false
  | _, _ => True

instance decidableSpared : ∀ (action : Action) (s : State), Decidable (Spared action s)
  | .written number, s => inferInstanceAs (Decidable (s.pump.hasDrained = true →
      ∀ call ∈ s.calls[number]?, s.pending call.id ≠ some number))
  | .respond, s => inferInstanceAs (Decidable (∀ subscription ∈ s.pump.minting,
      ∀ number ∈ s.subscriptions subscription, ∀ queue ∈ s.queues[number]?, queue.held = false))
  | .register _, _ | .writeFailed _, _ | .wake _, _ | .dropCall _, _ | .line _, _ | .cancelled, _
  | .drain, _ | .clear, _ | .take _, _ | .dropReceiver _, _ => isTrue trivial

end Guarantees

/-! ## Windows of lines -/

section Windows

variable {fromStr : String → Option Value} {read : List String} {line : String}
  {subscription : SubscriptionId} {established stop : Nat}

theorem notifies_iff : notifies fromStr subscription line = true ↔
    ∃ terminal, decode fromStr line = .notification subscription terminal := by
  simp [notifies]

theorem notifications_append_of_le (hstop : stop ≤ read.length) :
    notifications fromStr subscription established stop (read ++ [line]) =
      notifications fromStr subscription established stop read := by
  rw [notifications, notifications, List.take_append_of_le_length hstop]

theorem notifications_append (hestablished : established < read.length) :
    notifications fromStr subscription established (read.length + 1) (read ++ [line]) =
      notifications fromStr subscription established read.length read ++
        [line].filter (notifies fromStr subscription) := by
  have hall : (read ++ [line]).take (read.length + 1) = read ++ [line] :=
    List.take_of_length_le (by simp)
  rw [notifications, notifications, hall, List.take_length,
    List.drop_append_of_le_length hestablished, List.filter_append]

theorem notifications_skip (hline : notifies fromStr subscription line = false) :
    notifications fromStr subscription established (read.length + 1) (read ++ [line]) =
      notifications fromStr subscription established read.length (read ++ [line]) := by
  have hall : (read ++ [line]).take (read.length + 1) = read ++ [line] :=
    List.take_of_length_le (by simp)
  have hfront : (read ++ [line]).take read.length = read := List.take_left
  have hnone : (List.drop (established + 1 - read.length) [line]).filter
      (notifies fromStr subscription) = [] := by
    rw [List.filter_eq_nil_iff]
    intro other hother
    rw [List.mem_singleton.mp (List.mem_of_mem_drop hother), hline]
    exact Bool.false_ne_true
  rw [notifications, notifications, hall, hfront, List.drop_append, List.filter_append, hnone,
    List.append_nil]

end Windows

theorem getElem?_modify_some {α : Type} {l : List α} {n i : Nat} {f : α → α} {x : α}
    (h : (l.modify n f)[i]? = some x) :
    (i = n ∧ ∃ y, l[n]? = some y ∧ x = f y) ∨ (i ≠ n ∧ l[i]? = some x) := by
  rw [List.getElem?_modify] at h
  by_cases hi : n = i
  · subst hi
    obtain ⟨y, hy, hx⟩ := Option.map_eq_some_iff.mp h
    rw [if_pos rfl] at hx
    exact .inl ⟨rfl, y, hy, hx.symm⟩
  · obtain ⟨y, hy, hx⟩ := Option.map_eq_some_iff.mp h
    rw [if_neg hi] at hx
    exact .inr ⟨fun hn => hi hn.symm, hx ▸ hy⟩

/-! ## The queues -/

section Streams

variable {fromStr : String → Option Value} {read read' : List String} {line : String}
  {subscriptions subscriptions' : SubscriptionId → Option Nat} {queues : List Queue}
  {queue : Queue} {subscription : SubscriptionId} {n : Nat} {f : Queue → Queue}

variable (fromStr) in
/-- What holds of one queue: it has its notifications; while it runs it has not overflowed and no
terminal notification was put on it. -/
structure Fits (read : List String) (queue : Queue) : Prop where
  established : queue.established < read.length
  stop : ∀ stop, queue.stop = some stop → stop ≤ read.length
  lines : queue.lines = notifications fromStr queue.subscription queue.established
    (queue.stop.getD read.length) read
  running : queue.stop = none → queue.overflowed = false ∧
    ∀ line ∈ queue.lines, closes fromStr queue.subscription line = false

variable (fromStr) in
/-- The queues and the subscription map: a queue runs exactly while it is registered. -/
structure Streams (read : List String) (subscriptions : SubscriptionId → Option Nat)
    (queues : List Queue) : Prop where
  fits : ∀ (number : Nat) (queue : Queue), queues[number]? = some queue → Fits fromStr read queue
  registered : ∀ (number : Nat) (queue : Queue), queues[number]? = some queue →
    (queue.stop = none ↔ subscriptions queue.subscription = some number)
  present : ∀ (subscription : SubscriptionId) (number : Nat),
    subscriptions subscription = some number →
    ∃ queue, queues[number]? = some queue ∧ queue.subscription = subscription
  exclusive : Exclusive queues

namespace Fits

theorem skip (h : Fits fromStr read queue)
    (hline : queue.stop = none → notifies fromStr queue.subscription line = false) :
    Fits fromStr (read ++ [line]) queue := by
  have hlength : (read ++ [line]).length = read.length + 1 := by simp
  refine ⟨by rw [hlength]; exact Nat.lt_succ_of_lt h.established, fun stop hstop => ?_, ?_,
    h.running⟩
  · rw [hlength]
    exact Nat.le_succ_of_le (h.stop stop hstop)
  · cases hstop : queue.stop with
    | none =>
      have hlines := h.lines
      rw [hstop, Option.getD_none] at hlines
      rw [Option.getD_none, hlength, notifications_append h.established, ← hlines,
        List.filter_singleton, hline hstop]
      exact (List.append_nil _).symm
    | some stop =>
      have hlines := h.lines
      rw [hstop, Option.getD_some] at hlines
      rw [Option.getD_some, notifications_append_of_le (h.stop stop hstop), ← hlines]

theorem put (h : Fits fromStr read queue) (hstop : queue.stop = none)
    (hline : notifies fromStr queue.subscription line = true)
    (hcloses : closes fromStr queue.subscription line = false) :
    Fits fromStr (read ++ [line]) { queue with lines := queue.lines ++ [line] } := by
  have hlength : (read ++ [line]).length = read.length + 1 := by simp
  have hlines := h.lines
  rw [hstop, Option.getD_none] at hlines
  refine ⟨by rw [hlength]; exact Nat.lt_succ_of_lt h.established, fun stop hc => ?_, ?_, ?_⟩
  · cases hstop.symm.trans hc
  · change queue.lines ++ [line] = notifications fromStr queue.subscription queue.established
      (queue.stop.getD _) _
    rw [hstop, Option.getD_none, hlength, notifications_append h.established, ← hlines,
      List.filter_singleton, hline]
    rfl
  · intro _
    obtain ⟨hoverflowed, hopen⟩ := h.running hstop
    refine ⟨hoverflowed, fun other hother => ?_⟩
    rcases List.mem_append.mp hother with hother | hother
    · exact hopen other hother
    · rw [List.mem_singleton.mp hother]
      exact hcloses

theorem putLast (h : Fits fromStr read queue) (hstop : queue.stop = none)
    (hline : notifies fromStr queue.subscription line = true) :
    Fits fromStr (read ++ [line])
      { queue with
        lines := queue.lines ++ [line]
        stop := some (read.length + 1) } := by
  have hlength : (read ++ [line]).length = read.length + 1 := by simp
  have hlines := h.lines
  rw [hstop, Option.getD_none] at hlines
  refine ⟨by rw [hlength]; exact Nat.lt_succ_of_lt h.established, fun stop hc => ?_, ?_,
    fun hc => (by cases hc)⟩
  · cases hc
    rw [hlength]
  · change queue.lines ++ [line] = notifications fromStr queue.subscription queue.established
      (read.length + 1) _
    rw [notifications_append h.established, ← hlines, List.filter_singleton, hline]
    rfl

theorem lose (h : Fits fromStr read queue) (hstop : queue.stop = none) (overflowed : Bool) :
    Fits fromStr (read ++ [line])
      { queue with
        overflowed
        stop := some read.length } := by
  have hlength : (read ++ [line]).length = read.length + 1 := by simp
  have hlines := h.lines
  rw [hstop, Option.getD_none] at hlines
  refine ⟨by rw [hlength]; exact Nat.lt_succ_of_lt h.established, fun stop hc => ?_, ?_,
    fun hc => (by cases hc)⟩
  · cases hc
    rw [hlength]
    exact Nat.le_succ _
  · change queue.lines = notifications fromStr queue.subscription queue.established read.length _
    rw [notifications_append_of_le (Nat.le_refl _), ← hlines]

theorem replace (h : Fits fromStr (read ++ [line]) queue) (hstop : queue.stop = none)
    (hline : notifies fromStr queue.subscription line = false) :
    Fits fromStr (read ++ [line]) { queue with stop := some read.length } := by
  have hlength : (read ++ [line]).length = read.length + 1 := by simp
  have hlines := h.lines
  rw [hstop, Option.getD_none, hlength, notifications_skip hline] at hlines
  refine ⟨h.established, fun stop hc => ?_, hlines, fun hc => (by cases hc)⟩
  cases hc
  rw [hlength]
  exact Nat.le_succ _

theorem finish (h : Fits fromStr read queue) :
    Fits fromStr read { queue with stop := queue.stop.or (some read.length) } := by
  have hstop : (queue.stop.or (some read.length)).getD read.length =
      queue.stop.getD read.length := by
    cases queue.stop with
    | none => rfl
    | some stop => rfl
  refine ⟨h.established, fun stop hc => ?_, ?_, fun hc => ?_⟩
  · cases hqueue : queue.stop with
    | none =>
      rw [show (queue.stop.or (some read.length)) = some read.length by rw [hqueue]; rfl] at hc
      cases hc
      exact Nat.le_refl _
    | some other =>
      rw [show (queue.stop.or (some read.length)) = some other by rw [hqueue]; rfl] at hc
      exact h.stop stop (hqueue.trans hc)
  · change queue.lines = notifications fromStr queue.subscription queue.established
      ((queue.stop.or (some read.length)).getD read.length) read
    rw [hstop]
    exact h.lines
  · rw [Option.or_eq_none_iff] at hc
    cases hc.2

end Fits

/-- A later form of a queue: the same subscription, established by the same response, and stopped
where it was stopped. -/
structure Queue.Later (queue later : Queue) : Prop where
  subscription : later.subscription = queue.subscription
  established : later.established = queue.established
  stop : ∀ stop, queue.stop = some stop → later.stop = some stop

theorem Exclusive.later {queues' : List Queue} (h : Exclusive queues)
    (hlater : ∀ (number : Nat) (later : Queue), queues'[number]? = some later →
      ∃ queue, queues[number]? = some queue ∧ queue.Later later) : Exclusive queues' := by
  intro i j queue later hij hi hj hsame
  obtain ⟨queue', hi', hqueue⟩ := hlater i queue hi
  obtain ⟨later', hj', hafter⟩ := hlater j later hj
  rw [hqueue.subscription, hafter.subscription] at hsame
  obtain ⟨stop, hstop, hle⟩ := h i j queue' later' hij hi' hj' hsame
  exact ⟨stop, hqueue.stop stop hstop, hafter.established ▸ hle⟩

namespace Streams

theorem update (h : Streams fromStr read subscriptions queues)
    (hfits : ∀ queue, queues[n]? = some queue → Fits fromStr read' (f queue))
    (hlater : ∀ queue, queues[n]? = some queue → queue.Later (f queue))
    (hregistered : ∀ queue, queues[n]? = some queue →
      ((f queue).stop = none ↔ subscriptions' queue.subscription = some n))
    (hothers : ∀ number queue, number ≠ n → queues[number]? = some queue →
      Fits fromStr read' queue ∧
        (queue.stop = none ↔ subscriptions' queue.subscription = some number))
    (hpresent : ∀ subscription number, subscriptions' subscription = some number →
      subscriptions subscription = some number) :
    Streams fromStr read' subscriptions' (queues.modify n f) := by
  constructor
  · intro number queue hqueue
    rcases getElem?_modify_some hqueue with ⟨-, before, hbefore, rfl⟩ | ⟨hne, hbefore⟩
    · exact hfits before hbefore
    · exact (hothers number queue hne hbefore).1
  · intro number queue hqueue
    rcases getElem?_modify_some hqueue with ⟨rfl, before, hbefore, rfl⟩ | ⟨hne, hbefore⟩
    · rw [(hlater before hbefore).subscription]
      exact hregistered before hbefore
    · exact (hothers number queue hne hbefore).2
  · intro subscription number hnumber
    obtain ⟨queue, hqueue, hsame⟩ := h.present subscription number (hpresent _ _ hnumber)
    by_cases hn : number = n
    · subst hn
      refine ⟨f queue, ?_, (hlater queue hqueue).subscription.trans hsame⟩
      rw [List.getElem?_modify, hqueue]
      simp
    · refine ⟨queue, ?_, hsame⟩
      rw [List.getElem?_modify, hqueue]
      simp [Ne.symm hn]
  · refine Exclusive.later h.exclusive fun number later hchanged => ?_
    rcases getElem?_modify_some hchanged with ⟨rfl, before, hbefore, rfl⟩ | ⟨-, hbefore⟩
    · exact ⟨before, hbefore, hlater before hbefore⟩
    · exact ⟨later, hbefore, rfl, rfl, fun _ hstop => hstop⟩

theorem ne_of_running (h : Streams fromStr read subscriptions queues)
    (hnumber : subscriptions subscription = some n) {number : Nat} (hne : number ≠ n)
    (hqueue : queues[number]? = some queue) (hstop : queue.stop = none) :
    queue.subscription ≠ subscription := by
  intro hsame
  have hown := (h.registered number queue hqueue).mp hstop
  rw [hsame, hnumber] at hown
  exact hne (Option.some.inj hown).symm

theorem skip_other (h : Streams fromStr read subscriptions queues)
    (hnumber : subscriptions subscription = some n)
    (hline : notifies fromStr subscription line = true) (number : Nat) (queue : Queue)
    (hne : number ≠ n) (hqueue : queues[number]? = some queue) :
    Fits fromStr (read ++ [line]) queue := by
  refine (h.fits number queue hqueue).skip fun hstop => ?_
  obtain ⟨terminal, hdecode⟩ := notifies_iff.mp hline
  rw [Bool.eq_false_iff]
  intro hnotifies
  obtain ⟨terminal', hdecode'⟩ := notifies_iff.mp hnotifies
  rw [hdecode] at hdecode'
  injection hdecode' with hsame
  exact h.ne_of_running hnumber hne hqueue hstop hsame.symm

theorem skip (h : Streams fromStr read subscriptions queues)
    (hline : ∀ subscription, notifies fromStr subscription line = true →
      subscriptions subscription = none) :
    Streams fromStr (read ++ [line]) subscriptions queues := by
  refine ⟨fun number queue hqueue => (h.fits number queue hqueue).skip fun hstop => ?_,
    h.registered, h.present, h.exclusive⟩
  rw [Bool.eq_false_iff]
  intro hnotifies
  have hown := (h.registered number queue hqueue).mp hstop
  rw [hline _ hnotifies] at hown
  cases hown

theorem keep (h : Streams fromStr read subscriptions queues) (n : Nat) {taken : Queue → Nat}
    {held : Queue → Bool} :
    Streams fromStr read subscriptions
      (queues.modify n fun q => { q with
        taken := taken q
        held := held q }) := by
  refine h.update (fun queue hqueue => ?_) (fun queue _ => ⟨rfl, rfl, fun _ hstop => hstop⟩)
    (fun queue hqueue => h.registered n queue hqueue)
    (fun number queue _ hqueue => ⟨h.fits number queue hqueue, h.registered number queue hqueue⟩)
    (fun _ _ hnumber => hnumber)
  have hfits := h.fits n queue hqueue
  exact ⟨hfits.established, hfits.stop, hfits.lines, hfits.running⟩

section Registered

variable (h : Streams fromStr read subscriptions queues)
  (hnumber : subscriptions subscription = some n) (hqueue : queues[n]? = some queue)

include h hnumber hqueue in
theorem running_of_registered : queue.subscription = subscription ∧ queue.stop = none := by
  obtain ⟨other, hother, hsame⟩ := h.present subscription n hnumber
  rw [hqueue] at hother
  cases hother
  exact ⟨hsame, (h.registered n queue hqueue).mpr (hsame.symm ▸ hnumber)⟩

include h hnumber hqueue in
theorem put (hline : decode fromStr line = .notification subscription false) :
    Streams fromStr (read ++ [line]) subscriptions
      (queues.modify n fun q => { q with lines := q.lines ++ [line] }) := by
  have hnotifies : notifies fromStr subscription line = true := notifies_iff.mpr ⟨false, hline⟩
  obtain ⟨hsame, hstop⟩ := running_of_registered h hnumber hqueue
  refine h.update (fun other hother => ?_) (fun _ _ => ⟨rfl, rfl, fun _ hc => hc⟩)
    (fun other hother => h.registered n other hother)
    (fun number other hne hother => ⟨h.skip_other hnumber hnotifies number other hne hother,
      h.registered number other hother⟩)
    (fun _ _ hc => hc)
  rw [hqueue] at hother
  cases hother
  refine (h.fits n queue hqueue).put hstop (hsame.symm ▸ hnotifies) ?_
  rw [closes, hline]
  simp

include h hnumber hqueue in
theorem unregister (hothers : ∀ (number : Nat) (other : Queue), number ≠ n →
      queues[number]? = some other → Fits fromStr read' other)
    (hfits : Fits fromStr read' (f queue)) (hlater : queue.Later (f queue))
    (hstops : (f queue).stop ≠ none) :
    Streams fromStr read' (Function.update subscriptions subscription none)
      (queues.modify n f) := by
  obtain ⟨rfl, -⟩ := running_of_registered h hnumber hqueue
  have honly : ∀ other, queues[n]? = some other → other = queue := by
    intro other hother
    rw [hqueue] at hother
    exact (Option.some.inj hother).symm
  refine h.update (fun other hother => honly other hother ▸ hfits)
    (fun other hother => honly other hother ▸ hlater) (fun other hother => ?_)
    (fun number other hne hother => ⟨hothers number other hne hother, ?_⟩)
    (fun other number hother => ?_)
  · rw [honly other hother, Function.update_self]
    simp [hstops]
  · by_cases hown : other.subscription = queue.subscription
    · rw [hown, Function.update_self]
      exact iff_of_false
        (fun hc => h.ne_of_running hnumber hne hother hc hown)
        (fun hc => (by cases hc))
    · rw [Function.update_of_ne hown]
      exact h.registered number other hother
  · by_cases hown : other = queue.subscription
    · rw [hown, Function.update_self] at hother
      cases hother
    · rwa [Function.update_of_ne hown] at hother

end Registered

theorem push (h : Streams fromStr read subscriptions queues)
    (hnone : subscriptions subscription = none) (hread : 0 < read.length)
    (hstops : ∀ (number : Nat) (queue : Queue) (stop : Nat), queues[number]? = some queue →
      queue.stop = some stop → stop < read.length) :
    Streams fromStr read (Function.update subscriptions subscription (some queues.length))
      (queues ++ [⟨subscription, [], 0, true, false, read.length - 1, none⟩]) := by
  have hcases : ∀ (number : Nat) (queue : Queue),
      (queues ++ [⟨subscription, [], 0, true, false, read.length - 1, none⟩])[number]? =
        some queue →
      queues[number]? = some queue ∧ number < queues.length ∨
        number = queues.length ∧
          queue = ⟨subscription, [], 0, true, false, read.length - 1, none⟩ := by
    intro number queue hqueue
    by_cases hlt : number < queues.length
    · rw [List.getElem?_append_left hlt] at hqueue
      exact .inl ⟨hqueue, hlt⟩
    · rw [List.getElem?_append_right (Nat.le_of_not_lt hlt)] at hqueue
      rw [List.getElem?_singleton] at hqueue
      split at hqueue
      · exact .inr ⟨by omega, (Option.some.inj hqueue).symm⟩
      · cases hqueue
  constructor
  · intro number queue hqueue
    rcases hcases number queue hqueue with ⟨hqueue, -⟩ | ⟨-, rfl⟩
    · exact h.fits number queue hqueue
    · refine ⟨Nat.sub_lt hread Nat.one_pos, fun _ hc => (by cases hc), ?_,
        fun _ => ⟨rfl, fun _ hc => (by cases hc)⟩⟩
      simp [notifications, Nat.sub_add_cancel hread]
  · intro number queue hqueue
    rcases hcases number queue hqueue with ⟨hqueue, hlt⟩ | ⟨rfl, rfl⟩
    · rw [h.registered number queue hqueue]
      by_cases hown : queue.subscription = subscription
      · rw [hown, hnone, Function.update_self]
        exact iff_of_false (fun hc => (by cases hc)) fun hc => by
          rw [Option.some.injEq] at hc
          omega
      · rw [Function.update_of_ne hown]
    · simp
  · intro other number hnumber
    by_cases hown : other = subscription
    · rw [hown, Function.update_self] at hnumber
      cases hnumber
      exact ⟨_, List.getElem?_concat_length, hown.symm⟩
    · rw [Function.update_of_ne hown] at hnumber
      obtain ⟨queue, hqueue, hsame⟩ := h.present other number hnumber
      obtain ⟨hlt, -⟩ := List.getElem?_eq_some_iff.mp hqueue
      exact ⟨queue, by rw [List.getElem?_append_left hlt, hqueue], hsame⟩
  · intro i j queue later hij hi hj hsame
    rcases hcases i queue hi with ⟨hi, hlt⟩ | ⟨rfl, rfl⟩
    · rcases hcases j later hj with ⟨hj, -⟩ | ⟨-, rfl⟩
      · exact h.exclusive i j queue later hij hi hj hsame
      · cases hstop : queue.stop with
        | none =>
          have hown := (h.registered i queue hi).mp hstop
          rw [hsame, hnone] at hown
          cases hown
        | some stop => exact ⟨stop, rfl, Nat.le_sub_one_of_lt (hstops i queue stop hi hstop)⟩
    · obtain ⟨hlt, -⟩ := List.getElem?_eq_some_iff.mp hj
      rw [List.length_append, List.length_singleton] at hlt
      omega

theorem finish (h : Streams fromStr read subscriptions queues) :
    Streams fromStr read (fun _ => none)
      (queues.map fun q => { q with stop := q.stop.or (some read.length) }) := by
  have hcases : ∀ (number : Nat) (later : Queue),
      (queues.map fun q => { q with stop := q.stop.or (some read.length) })[number]? = some later →
      ∃ queue, queues[number]? = some queue ∧
        later = { queue with stop := queue.stop.or (some read.length) } := by
    intro number later hlater
    rw [List.getElem?_map, Option.map_eq_some_iff] at hlater
    obtain ⟨queue, hqueue, hsame⟩ := hlater
    exact ⟨queue, hqueue, hsame.symm⟩
  refine ⟨fun number later hlater => ?_, fun number later hlater => ?_,
    fun _ _ hc => (by cases hc), Exclusive.later h.exclusive fun number later hlater => ?_⟩
  · obtain ⟨queue, hqueue, rfl⟩ := hcases number later hlater
    exact (h.fits number queue hqueue).finish
  · obtain ⟨queue, hqueue, rfl⟩ := hcases number later hlater
    exact iff_of_false (by simp) (fun hc => (by cases hc))
  · obtain ⟨queue, hqueue, rfl⟩ := hcases number later hlater
    refine ⟨queue, hqueue, rfl, rfl, fun stop hstop => ?_⟩
    change queue.stop.or _ = _
    rw [hstop]
    rfl

end Streams

end Streams

/-! ## The pump keeps the queues -/

section Pumping

variable {fromStr : String → Option Value} {s : State} {front : List String} {line : String}
  {subscription : SubscriptionId} {terminal : Bool}

namespace State

/-- A notification leaves the calls alone, and does not give the pump a sender. -/
theorem forwardNotification_frame (capacity : Nat) (subscription : SubscriptionId)
    (terminal : Bool) (line : String) (s : State) :
    (forwardNotification capacity subscription terminal line s).pending = s.pending ∧
    (forwardNotification capacity subscription terminal line s).calls = s.calls ∧
    (forwardNotification capacity subscription terminal line s).handed = s.handed ∧
    (forwardNotification capacity subscription terminal line s).read = s.read ∧
    ((forwardNotification capacity subscription terminal line s).pump = s.pump ∨
      (forwardNotification capacity subscription terminal line s).pump =
        if terminal then .reading else .cancelling subscription) := by
  unfold forwardNotification
  cases s.subscriptions subscription with
  | none => exact ⟨rfl, rfl, rfl, rfl, .inl rfl⟩
  | some number =>
    dsimp only
    cases s.queues[number]? with
    | none => exact ⟨rfl, rfl, rfl, rfl, .inl rfl⟩
    | some queue =>
      dsimp only
      by_cases hheld : (!queue.held) = true
      · rw [if_pos hheld]
        exact ⟨rfl, rfl, rfl, rfl, .inr rfl⟩
      · rw [if_neg hheld]
        by_cases hroom : queue.lines.length - queue.taken < capacity
        · rw [if_pos hroom]
          cases terminal <;> exact ⟨rfl, rfl, rfl, rfl, .inl rfl⟩
        · rw [if_neg hroom]
          exact ⟨rfl, rfl, rfl, rfl, .inr rfl⟩

theorem forwardNotification_streams (capacity : Nat)
    (h : Streams fromStr front s.subscriptions s.queues)
    (hread : s.read = front ++ [line])
    (hline : decode fromStr line = .notification subscription terminal) :
    Streams fromStr s.read (forwardNotification capacity subscription terminal line s).subscriptions
      (forwardNotification capacity subscription terminal line s).queues := by
  have hnotifies : notifies fromStr subscription line = true := notifies_iff.mpr ⟨terminal, hline⟩
  have hlength : s.read.length = front.length + 1 := by simp [hread]
  unfold forwardNotification
  cases hnumber : s.subscriptions subscription with
  | none =>
    rw [hread]
    refine h.skip fun other hother => ?_
    obtain ⟨terminal', hdecode⟩ := notifies_iff.mp hother
    rw [hline] at hdecode
    injection hdecode with hsame
    rw [← hsame, hnumber]
  | some number =>
    obtain ⟨queue, hqueue, hown⟩ := h.present subscription number hnumber
    have hstop := (Streams.running_of_registered h hnumber hqueue).2
    have hfits := h.fits number queue hqueue
    have hothers := h.skip_other hnumber hnotifies
    have hlater : ∀ later : Queue, later.subscription = queue.subscription →
        later.established = queue.established → queue.Later later :=
      fun _ hsame hestablished => ⟨hsame, hestablished, fun _ hc => (by rw [hstop] at hc; cases hc)⟩
    dsimp only
    rw [hqueue]
    dsimp only
    by_cases hheld : (!queue.held) = true
    · rw [if_pos hheld, hlength, Nat.add_sub_cancel, hread]
      exact h.unregister hnumber hqueue hothers (hfits.lose hstop queue.overflowed)
        (hlater _ rfl rfl) (Option.some_ne_none _)
    · rw [if_neg hheld]
      by_cases hroom : queue.lines.length - queue.taken < capacity
      · rw [if_pos hroom]
        cases terminal with
        | false =>
          rw [hread]
          exact h.put hnumber hqueue hline
        | true =>
          dsimp only [unregister]
          rw [if_pos rfl, List.modify_modify_eq, hlength, hread]
          exact h.unregister hnumber hqueue hothers (hfits.putLast hstop (hown.symm ▸ hnotifies))
            (hlater _ rfl rfl) (Option.some_ne_none _)
      · rw [if_neg hroom]
        dsimp only [unregister]
        rw [List.modify_modify_eq, hlength, Nat.add_sub_cancel, hread]
        exact h.unregister hnumber hqueue hothers (hfits.lose hstop true)
          (hlater _ rfl rfl) (Option.some_ne_none _)

/-- The subscription a response mints: the queue it takes over from stops at the response. -/
theorem mint_streams (h : Streams fromStr s.read s.subscriptions s.queues)
    (hread : s.read = front ++ [line])
    (hline : ∀ other, notifies fromStr other line = false)
    (hstops : ∀ (number : Nat) (queue : Queue) (stop : Nat), s.queues[number]? = some queue →
      queue.stop = some stop → stop < s.read.length) :
    Streams fromStr s.read (s.mint subscription).subscriptions (s.mint subscription).queues := by
  have hlength : s.read.length = front.length + 1 := by simp [hread]
  have hpositive : 0 < s.read.length := by omega
  unfold mint
  cases hnumber : s.subscriptions subscription with
  | none => exact h.push hnumber hpositive hstops
  | some number =>
    dsimp only
    obtain ⟨queue, hqueue, hown⟩ := h.present subscription number hnumber
    have hstop := (Streams.running_of_registered h hnumber hqueue).2
    have hfits : Fits fromStr s.read { queue with stop := some (s.read.length - 1) } := by
      have hbefore := h.fits number queue hqueue
      rw [hlength, Nat.add_sub_cancel]
      rw [hread] at hbefore ⊢
      exact hbefore.replace hstop (hline _)
    have hstopped := h.unregister hnumber hqueue
      (f := fun q => { q with stop := some (s.read.length - 1) })
      (fun i other _ hother => h.fits i other hother) hfits
      ⟨rfl, rfl, fun _ hc => (by rw [hstop] at hc; cases hc)⟩ (Option.some_ne_none _)
    have hnone : Function.update s.subscriptions subscription none subscription = none :=
      Function.update_self _ _ _
    have hpushed := hstopped.push hnone hpositive (fun i other stop hother hc => ?_)
    · rw [Function.update_idem, List.length_modify] at hpushed
      exact hpushed
    · rcases getElem?_modify_some hother with ⟨-, before, -, rfl⟩ | ⟨-, hbefore⟩
      · cases hc
        omega
      · exact hstops i other stop hbefore hc

end State

end Pumping

/-! ## The invariant -/

section Invariant

variable {fromStr : String → Option Value} {capacity : Nat} {s t : State} {action : Action}
  {front : List String} {line : String} {number : Nat} {call : Call}

variable (fromStr) in
/-- What holds while the pump holds a sender: it is in the map no more, its call has no line yet,
and the line for it is the last one read. -/
structure Holding (s : State) (number : Nat) (line : String)
    (subscription : Option SubscriptionId) : Prop where
  call : ∃ call, s.calls[number]? = some call ∧ decode fromStr line = .response call.id subscription
  removed : ∀ id, s.pending id ≠ some number
  unanswered : number ∉ s.handed.map Prod.snd
  last : ∃ front, s.read = front ++ [line]
  handed : ∀ entry ∈ s.handed, entry.1 + 1 < s.read.length
  stops : ∀ (i : Nat) (queue : Queue) (stop : Nat), s.queues[i]? = some queue →
    queue.stop = some stop → stop < s.read.length

variable (fromStr) in
/-- The invariant: the senders in the map belong to calls without a line, under their ids. -/
structure Inv (s : State) : Prop where
  streams : Streams fromStr s.read s.subscriptions s.queues
  pending : ∀ id number, s.pending id = some number →
    (∃ call, s.calls[number]? = some call ∧ call.id = id) ∧ number ∉ s.handed.map Prod.snd
  routed : Routed fromStr s
  responding : ∀ number line subscription, s.pump = .responding number line subscription →
    Holding fromStr s number line subscription

namespace Inv

theorem initial : Inv fromStr .initial where
  streams := ⟨fun _ _ hc => (by cases hc), fun _ _ hc => (by cases hc), fun _ _ hc => (by cases hc),
    fun _ _ _ _ _ hc => (by cases hc)⟩
  pending := fun _ _ hc => (by cases hc)
  routed := ⟨fun _ hc => (by cases hc), List.nodup_nil, List.nodup_nil⟩
  responding := fun _ _ _ hc => (by cases hc)

/-- The calls of one state are in another, under the same ids. -/
def CallsKept (s t : State) : Prop :=
  ∀ (number : Nat) (call : Call), s.calls[number]? = some call →
    ∃ later, t.calls[number]? = some later ∧ later.id = call.id

theorem CallsKept.modify {f : Call → Call} (hcalls : t.calls = s.calls.modify number f)
    (hf : ∀ c, (f c).id = c.id) : CallsKept s t := by
  intro i call hcall
  refine ⟨if number = i then f call else call, ?_, ?_⟩
  · rw [hcalls, List.getElem?_modify, hcall]
    rfl
  · split
    · exact hf call
    · rfl

theorem routed_kept (h : Routed fromStr s) (hcalls : CallsKept s t) (hhanded : t.handed = s.handed)
    (hread : ∃ rest, t.read = s.read ++ rest) : Routed fromStr t := by
  refine ⟨fun entry hentry => ?_, hhanded ▸ h.lineOnce, hhanded ▸ h.callOnce⟩
  obtain ⟨call, line, subscription, hcall, hline, hdecode⟩ := h.own entry (hhanded ▸ hentry)
  obtain ⟨later, hlater, hid⟩ := hcalls entry.2 call hcall
  obtain ⟨rest, hrest⟩ := hread
  obtain ⟨hlt, -⟩ := List.getElem?_eq_some_iff.mp hline
  exact ⟨later, line, subscription, hlater, by rw [hrest, List.getElem?_append_left hlt, hline],
    hid ▸ hdecode⟩

theorem quiet (h : Inv fromStr s) (hstreams : Streams fromStr t.read t.subscriptions t.queues)
    (hread : t.read = s.read) (hhanded : t.handed = s.handed) (hcalls : CallsKept s t)
    (hpending : ∀ id number, t.pending id = some number → s.pending id = some number)
    (hpump : ∀ number line subscription, t.pump = .responding number line subscription →
      s.pump = .responding number line subscription)
    (hstops : ∀ (i : Nat) (later : Queue), t.queues[i]? = some later →
      ∃ queue, s.queues[i]? = some queue ∧ later.stop = queue.stop) : Inv fromStr t := by
  refine ⟨hstreams, fun id number hnumber => ?_,
    routed_kept h.routed hcalls hhanded ⟨[], by rw [hread, List.append_nil]⟩,
    fun number line subscription hholds => ?_⟩
  · obtain ⟨⟨call, hcall, hid⟩, hnot⟩ := h.pending id number (hpending id number hnumber)
    obtain ⟨later, hlater, hsame⟩ := hcalls number call hcall
    exact ⟨⟨later, hlater, hsame.trans hid⟩, hhanded ▸ hnot⟩
  · have hholding := h.responding number line subscription (hpump _ _ _ hholds)
    obtain ⟨call, hcall, hdecode⟩ := hholding.call
    obtain ⟨later, hlater, hsame⟩ := hcalls number call hcall
    refine ⟨⟨later, hlater, hsame ▸ hdecode⟩, fun id hc => hholding.removed id (hpending _ _ hc),
      hhanded ▸ hholding.unanswered, hread ▸ hholding.last, ?_, fun i later stop hlater hstop => ?_⟩
    · rw [hread, hhanded]
      exact hholding.handed
    · obtain ⟨queue, hqueue, hsame⟩ := hstops i later hlater
      rw [hread]
      exact hholding.stops i queue stop hqueue (hsame ▸ hstop)

/-! ### Calls and consumers -/

theorem stops_modify {f : Queue → Queue} {n : Nat} (hqueues : t.queues = s.queues.modify n f)
    (hf : ∀ q, (f q).stop = q.stop) (i : Nat) (later : Queue) (hlater : t.queues[i]? = some later) :
    ∃ queue, s.queues[i]? = some queue ∧ later.stop = queue.stop := by
  rw [hqueues] at hlater
  rcases getElem?_modify_some hlater with ⟨rfl, before, hbefore, rfl⟩ | ⟨-, hbefore⟩
  · exact ⟨before, hbefore, hf before⟩
  · exact ⟨later, hbefore, rfl⟩

theorem callsKept_self (hcalls : t.calls = s.calls) : CallsKept s t :=
  fun _ call hcall => ⟨call, hcalls ▸ hcall, rfl⟩

theorem dropReceiver (h : Inv fromStr s) (n : Nat) : Inv fromStr (s.dropReceiver n) :=
  h.quiet (h.streams.keep n) rfl rfl (callsKept_self rfl) (fun _ _ hc => hc) (fun _ _ _ hc => hc)
    (stops_modify rfl fun _ => rfl)

theorem take (h : Inv fromStr s) (n : Nat) : Inv fromStr
    { s with queues := s.queues.modify n fun q => { q with taken := q.taken + 1 } } :=
  h.quiet (h.streams.keep n) rfl rfl (callsKept_self rfl) (fun _ _ hc => hc) (fun _ _ _ hc => hc)
    (stops_modify rfl fun _ => rfl)

theorem dropResponse (h : Inv fromStr s) (call : Call) : Inv fromStr (s.dropResponse call) := by
  unfold State.dropResponse
  cases call.response.bind PumpedResponse.subscription with
  | none => exact h
  | some queue => exact h.dropReceiver queue

theorem setPhase (h : Inv fromStr s) (number : Nat) (phase : CallPhase) :
    Inv fromStr (s.setPhase number phase) :=
  h.quiet h.streams rfl rfl (CallsKept.modify rfl fun _ => rfl) (fun _ _ hc => hc)
    (fun _ _ _ hc => hc) (fun _ later hlater => ⟨later, hlater, rfl⟩)

theorem unpend (h : Inv fromStr s) (id : RequestId) :
    Inv fromStr { s with pending := Function.update s.pending id none } := by
  refine h.quiet h.streams rfl rfl (callsKept_self rfl) (fun other number hnumber => ?_)
    (fun _ _ _ hc => hc) (fun _ later hlater => ⟨later, hlater, rfl⟩)
  change Function.update s.pending id none other = some number at hnumber
  by_cases hother : other = id
  · rw [hother, Function.update_self] at hnumber
    cases hnumber
  · rwa [Function.update_of_ne hother] at hnumber

theorem register (h : Inv fromStr s) (id : RequestId) : Inv fromStr (s.register id) := by
  unfold State.register
  cases hpending : s.pending id with
  | some number => exact h
  | none =>
    dsimp only
    have hkept : CallsKept s { s with
        pending := Function.update s.pending id (some s.calls.length)
        calls := s.calls ++ [⟨id, .writing, none⟩] } := by
      intro number call hcall
      obtain ⟨hlt, -⟩ := List.getElem?_eq_some_iff.mp hcall
      exact ⟨call, by rw [List.getElem?_append_left hlt, hcall], rfl⟩
    have hnew : s.calls.length ∉ s.handed.map Prod.snd := by
      rw [List.mem_map]
      rintro ⟨entry, hentry, hsame⟩
      obtain ⟨call, -, -, hcall, -⟩ := h.routed.own entry hentry
      obtain ⟨hlt, -⟩ := List.getElem?_eq_some_iff.mp hcall
      omega
    refine ⟨h.streams, fun other number hnumber => ?_,
      routed_kept h.routed hkept rfl ⟨[], (List.append_nil _).symm⟩,
      fun number line sub hholds => ?_⟩
    · change Function.update s.pending id (some s.calls.length) other = some number at hnumber
      by_cases hother : other = id
      · rw [hother, Function.update_self] at hnumber
        cases hnumber
        exact ⟨⟨_, List.getElem?_concat_length, hother.symm⟩, hnew⟩
      · rw [Function.update_of_ne hother] at hnumber
        obtain ⟨⟨call, hcall, hid⟩, hnot⟩ := h.pending other number hnumber
        obtain ⟨later, hlater, hsame⟩ := hkept number call hcall
        exact ⟨⟨later, hlater, hsame.trans hid⟩, hnot⟩
    · have hholding := h.responding number line sub hholds
      obtain ⟨call, hcall, hdecode⟩ := hholding.call
      obtain ⟨later, hlater, hsame⟩ := hkept number call hcall
      refine ⟨⟨later, hlater, hsame ▸ hdecode⟩, fun other hc => ?_, hholding.unanswered,
        hholding.last, hholding.handed, hholding.stops⟩
      change Function.update s.pending id (some s.calls.length) other = some number at hc
      by_cases hother : other = id
      · rw [hother, Function.update_self] at hc
        cases hc
        obtain ⟨hlt, -⟩ := List.getElem?_eq_some_iff.mp hcall
        exact Nat.lt_irrefl _ hlt
      · rw [Function.update_of_ne hother] at hc
        exact hholding.removed other hc

/-! ### The pump -/

theorem grown (h : Inv fromStr s) (hstreams : Streams fromStr t.read t.subscriptions t.queues)
    (hread : t.read = s.read ++ [line]) (hpending : t.pending = s.pending)
    (hcalls : t.calls = s.calls) (hhanded : t.handed = s.handed)
    (hpump : ∀ number line subscription, t.pump ≠ .responding number line subscription) :
    Inv fromStr t := by
  refine ⟨hstreams, fun id number hnumber => ?_,
    routed_kept h.routed (callsKept_self hcalls) hhanded ⟨[line], hread⟩,
    fun number line subscription hc => absurd hc (hpump _ _ _)⟩
  rw [hcalls, hhanded]
  exact h.pending id number (hpending ▸ hnumber)

theorem not_notifies_of_response {id : RequestId} {subscription : Option SubscriptionId}
    (hline : decode fromStr line = .response id subscription) (other : SubscriptionId) :
    notifies fromStr other line = false := by
  simp [notifies, hline]

theorem route (h : Inv fromStr s) (hpump : s.pump = .reading) (line : String) :
    Inv fromStr (s.route fromStr capacity line) := by
  have hidle : ∀ number line subscription, s.pump ≠ .responding number line subscription :=
    fun _ _ _ hc => (by rw [hpump] at hc; cases hc)
  have hskip : (∀ other, notifies fromStr other line = false) →
      Streams fromStr (s.read ++ [line]) s.subscriptions s.queues := by
    intro hline
    refine h.streams.skip fun other hother => ?_
    rw [hline other] at hother
    cases hother
  unfold State.route
  dsimp only
  cases hline : decode fromStr line with
  | unknown => exact h.grown (hskip fun _ => by simp [notifies, hline]) rfl rfl rfl rfl hidle
  | notification subscription terminal =>
    have hgrown : ({ s with read := s.read ++ [line] } : State).read = s.read ++ [line] := rfl
    obtain ⟨hpending, hcalls, hhanded, hread, hafter⟩ := State.forwardNotification_frame capacity
      subscription terminal line { s with read := s.read ++ [line] }
    have hstreams := State.forwardNotification_streams capacity
      (s := { s with read := s.read ++ [line] }) h.streams hgrown hline
    refine h.grown (hread.symm ▸ hstreams) hread hpending hcalls hhanded fun _ _ _ hc => ?_
    rcases hafter with hafter | hafter
    · exact hidle _ _ _ (hafter.symm.trans hc)
    · rw [hafter] at hc
      cases terminal <;> cases hc
  | response id subscription =>
    dsimp only
    have hstreams := hskip (not_notifies_of_response hline)
    cases hpending : s.pending id with
    | none => exact h.grown hstreams rfl rfl rfl rfl hidle
    | some number =>
      obtain ⟨⟨call, hcall, hid⟩, hnot⟩ := h.pending id number hpending
      have hkept : ∀ other i, Function.update s.pending id none other = some i →
          s.pending other = some i ∧ other ≠ id := by
        intro other i hother
        by_cases hsame : other = id
        · rw [hsame, Function.update_self] at hother
          cases hother
        · rw [Function.update_of_ne hsame] at hother
          exact ⟨hother, hsame⟩
      refine ⟨hstreams, fun other i hother => h.pending other i (hkept other i hother).1,
        routed_kept h.routed (callsKept_self rfl) rfl ⟨[line], rfl⟩, fun i other sub hholds => ?_⟩
      cases hholds
      refine ⟨⟨call, hcall, hid.symm ▸ hline⟩, fun other hother => ?_, hnot, ⟨s.read, rfl⟩,
        fun entry hentry => ?_, fun i queue stop hqueue hstop => ?_⟩
      · obtain ⟨hother, hne⟩ := hkept other number hother
        obtain ⟨⟨same, hsame, hown⟩, -⟩ := h.pending other number hother
        rw [hcall] at hsame
        cases hsame
        exact hne (hown.symm.trans hid)
      · obtain ⟨-, own, -, -, hown, -⟩ := h.routed.own entry hentry
        obtain ⟨hlt, -⟩ := List.getElem?_eq_some_iff.mp hown
        change entry.1 + 1 < (s.read ++ [line]).length
        rw [List.length_append, List.length_singleton]
        omega
      · have hle := (h.streams.fits i queue hqueue).stop stop hstop
        change stop < (s.read ++ [line]).length
        rw [List.length_append, List.length_singleton]
        omega

theorem sendResponse (h : Inv fromStr s) (hpump : s.pump = .reading)
    {subscription : Option SubscriptionId} (hcall : s.calls[number]? = some call)
    (hline : decode fromStr line = .response call.id subscription)
    (hremoved : ∀ id, s.pending id ≠ some number) (hunanswered : number ∉ s.handed.map Prod.snd)
    (hlast : s.read = front ++ [line]) (hhanded : ∀ entry ∈ s.handed, entry.1 + 1 < s.read.length)
    (response : PumpedResponse) : Inv fromStr (s.sendResponse number response) := by
  unfold State.sendResponse
  rw [hcall]
  dsimp only
  by_cases hgone : call.phase = .gone
  · rw [if_pos hgone]
    exact h.dropResponse _
  · rw [if_neg hgone]
    have hlength : s.read.length - 1 = front.length := by simp [hlast]
    have hkept : CallsKept s { s with
        calls := s.calls.modify number fun c => { c with response := some response } } :=
      CallsKept.modify rfl fun _ => rfl
    have hbefore := routed_kept h.routed hkept rfl ⟨[], (List.append_nil _).symm⟩
    refine ⟨h.streams, fun id i hi => ?_, ⟨fun entry hentry => ?_, ?_, ?_⟩,
      fun _ _ _ hc => (by rw [hpump] at hc; cases hc)⟩
    · obtain ⟨⟨other, hother, hid⟩, hnot⟩ := h.pending id i hi
      obtain ⟨later, hlater, hsame⟩ := hkept i other hother
      refine ⟨⟨later, hlater, hsame.trans hid⟩, ?_⟩
      rw [List.map_append, List.mem_append, not_or]
      refine ⟨hnot, ?_⟩
      rw [List.map_singleton, List.mem_singleton]
      rintro rfl
      exact hremoved id hi
    · rcases List.mem_append.mp hentry with hentry | hentry
      · exact hbefore.own entry hentry
      · rw [List.mem_singleton.mp hentry]
        obtain ⟨later, hlater, hsame⟩ := hkept number call hcall
        refine ⟨later, line, subscription, hlater, ?_, hsame ▸ hline⟩
        change s.read[s.read.length - 1]? = some line
        rw [hlength, hlast, List.getElem?_concat_length]
    · rw [List.map_append, List.map_singleton, ← List.concat_eq_append]
      refine List.Nodup.concat (fun hmem => ?_) h.routed.lineOnce
      obtain ⟨entry, hentry, hsame⟩ := List.mem_map.mp hmem
      have hlt := hhanded entry hentry
      omega
    · rw [List.map_append, List.map_singleton, ← List.concat_eq_append]
      exact List.Nodup.concat hunanswered h.routed.callOnce

theorem mint (h : Inv fromStr s) (hpump : s.pump = .reading) (hlast : s.read = front ++ [line])
    (hline : ∀ other, notifies fromStr other line = false)
    (hstops : ∀ (i : Nat) (queue : Queue) (stop : Nat), s.queues[i]? = some queue →
      queue.stop = some stop → stop < s.read.length) (subscription : SubscriptionId) :
    Inv fromStr (s.mint subscription) :=
  ⟨State.mint_streams h.streams hlast hline hstops, h.pending,
    routed_kept h.routed (callsKept_self rfl) rfl ⟨[], (List.append_nil _).symm⟩,
    fun _ _ _ hc => (by
      change s.pump = _ at hc
      rw [hpump] at hc
      cases hc)⟩

theorem respond (h : Inv fromStr s) {subscription : Option SubscriptionId}
    (hpump : s.pump = .responding number line subscription) :
    Inv fromStr (s.respond number line subscription) := by
  have hholding := h.responding number line subscription hpump
  obtain ⟨call, hcall, hline⟩ := hholding.call
  obtain ⟨front, hlast⟩ := hholding.last
  have hreading : Inv fromStr { s with pump := .reading } :=
    h.quiet h.streams rfl rfl (callsKept_self rfl) (fun _ _ hc => hc)
      (fun _ _ _ hc => (by cases hc)) (fun _ later hlater => ⟨later, hlater, rfl⟩)
  unfold State.respond
  cases subscription with
  | none =>
    exact hreading.sendResponse rfl hcall hline hholding.removed hholding.unanswered hlast
      hholding.handed _
  | some minted =>
    have hminted := hreading.mint rfl hlast (not_notifies_of_response hline) hholding.stops minted
    exact hminted.sendResponse rfl hcall hline hholding.removed hholding.unanswered hlast
      hholding.handed _

theorem drain (h : Inv fromStr s) : Inv fromStr s.drain :=
  h.quiet h.streams rfl rfl (callsKept_self rfl) (fun _ _ hc => (by cases hc))
    (fun _ _ _ hc => (by cases hc)) (fun _ later hlater => ⟨later, hlater, rfl⟩)

theorem clear (h : Inv fromStr s) : Inv fromStr s.clear :=
  ⟨h.streams.finish, h.pending,
    routed_kept h.routed (callsKept_self rfl) rfl ⟨[], (List.append_nil _).symm⟩,
    fun _ _ _ hc => (by cases hc)⟩

end Inv

/-! ## Runs -/

theorem step_written (h : step fromStr capacity (.written number) s = some t) :
    ∃ call, s.calls[number]? = some call ∧ call.phase = .writing ∧
      t = s.setPhase number .awaiting := by
  obtain ⟨call, hcall, h⟩ := Option.bind_eq_some_iff.mp h
  obtain ⟨hphase, h⟩ := Option.ite_none_right_eq_some.mp h
  exact ⟨call, hcall, hphase, (Option.some.inj h).symm⟩

theorem step_writeFailed (h : step fromStr capacity (.writeFailed number) s = some t) :
    ∃ call, s.calls[number]? = some call ∧ t = s.writeFailed number call := by
  obtain ⟨call, hcall, h⟩ := Option.bind_eq_some_iff.mp h
  obtain ⟨-, h⟩ := Option.ite_none_right_eq_some.mp h
  exact ⟨call, hcall, (Option.some.inj h).symm⟩

theorem step_wake (h : step fromStr capacity (.wake number) s = some t) :
    t = s.setPhase number .gone := by
  obtain ⟨call, hcall, h⟩ := Option.bind_eq_some_iff.mp h
  obtain ⟨-, h⟩ := Option.ite_none_right_eq_some.mp h
  exact (Option.some.inj h).symm

theorem step_dropCall (h : step fromStr capacity (.dropCall number) s = some t) :
    ∃ call, s.calls[number]? = some call ∧ t = (s.dropResponse call).setPhase number .gone := by
  obtain ⟨call, hcall, h⟩ := Option.bind_eq_some_iff.mp h
  obtain ⟨-, h⟩ := Option.ite_none_left_eq_some.mp h
  exact ⟨call, hcall, (Option.some.inj h).symm⟩

theorem step_take (h : step fromStr capacity (.take number) s = some t) :
    t = { s with queues := s.queues.modify number fun q => { q with taken := q.taken + 1 } } := by
  obtain ⟨queue, -, h⟩ := Option.bind_eq_some_iff.mp h
  obtain ⟨-, h⟩ := Option.ite_none_right_eq_some.mp h
  exact (Option.some.inj h).symm

theorem step_respond (h : step fromStr capacity .respond s = some t) :
    ∃ number line subscription, s.pump = .responding number line subscription ∧
      t = s.respond number line subscription := by
  cases hpump : s.pump with
  | responding number line subscription =>
    rw [step, hpump] at h
    exact ⟨number, line, subscription, rfl, (Option.some.inj h).symm⟩
  | _ =>
    rw [step, hpump] at h
    cases h

theorem step_cancelled (h : step fromStr capacity .cancelled s = some t) :
    (∃ subscription, s.pump = .cancelling subscription) ∧ t = { s with pump := .reading } := by
  cases hpump : s.pump with
  | cancelling subscription =>
    rw [step, hpump] at h
    exact ⟨⟨subscription, rfl⟩, (Option.some.inj h).symm⟩
  | _ =>
    rw [step, hpump] at h
    cases h

/-- **Every step keeps the invariant.** -/
theorem Inv.step (h : Inv fromStr s) (hstep : step fromStr capacity action s = some t) :
    Inv fromStr t := by
  cases action with
  | register id =>
    cases hstep
    exact h.register id
  | written number =>
    obtain ⟨call, -, -, rfl⟩ := step_written hstep
    exact h.setPhase number _
  | writeFailed number =>
    obtain ⟨call, -, rfl⟩ := step_writeFailed hstep
    exact ((h.unpend call.id).dropResponse call).setPhase number _
  | wake number =>
    rw [step_wake hstep]
    exact h.setPhase number _
  | dropCall number =>
    obtain ⟨call, -, rfl⟩ := step_dropCall hstep
    exact (h.dropResponse call).setPhase number _
  | line line =>
    obtain ⟨hpump, hstep⟩ := Option.ite_none_right_eq_some.mp hstep
    cases hstep
    exact h.route hpump line
  | respond =>
    obtain ⟨number, line, subscription, hpump, rfl⟩ := step_respond hstep
    exact h.respond hpump
  | cancelled =>
    obtain ⟨-, rfl⟩ := step_cancelled hstep
    exact h.quiet h.streams rfl rfl (Inv.callsKept_self rfl) (fun _ _ hc => hc)
      (fun _ _ _ hc => (by cases hc)) (fun _ later hlater => ⟨later, hlater, rfl⟩)
  | drain =>
    obtain ⟨-, hstep⟩ := Option.ite_none_right_eq_some.mp hstep
    cases hstep
    exact h.drain
  | clear =>
    obtain ⟨-, hstep⟩ := Option.ite_none_right_eq_some.mp hstep
    cases hstep
    exact h.clear
  | take number =>
    rw [step_take hstep]
    exact h.take number
  | dropReceiver number =>
    cases hstep
    exact h.dropReceiver number

/-! ### Answers -/

theorem Answered.kept (h : Answered s)
    (hpump : t.pump.hasDrained = true → s.pump.hasDrained = true)
    (hcalls : ∀ (i : Nat) (later : Call), t.calls[i]? = some later → later.phase = .awaiting →
      s.calls[i]? = some later)
    (hpending : ∀ id i, t.pending id = some i → s.pending id = some i) : Answered t :=
  fun hdrained i later hlater hphase id hc =>
    h (hpump hdrained) i later (hcalls i later hlater hphase) hphase id (hpending id i hc)

theorem awaiting_of_gone {i : Nat} {later : Call}
    (hlater : (s.setPhase number .gone).calls[i]? = some later) (hphase : later.phase = .awaiting) :
    s.calls[i]? = some later := by
  rcases getElem?_modify_some hlater with ⟨-, before, -, rfl⟩ | ⟨-, hbefore⟩
  · cases hphase
  · exact hbefore

theorem dropResponse_frame (s : State) (call : Call) :
    (s.dropResponse call).calls = s.calls ∧ (s.dropResponse call).pending = s.pending ∧
      (s.dropResponse call).pump = s.pump := by
  unfold State.dropResponse
  cases call.response.bind PumpedResponse.subscription with
  | none => exact ⟨rfl, rfl, rfl⟩
  | some queue => exact ⟨rfl, rfl, rfl⟩

/-- Reading a line is not the end of the pump. -/
theorem route_pump (hpump : s.pump = .reading) :
    (s.route fromStr capacity line).pump.hasDrained = false := by
  unfold State.route
  dsimp only
  cases decode fromStr line with
  | unknown => simp [hpump, Pump.hasDrained]
  | notification subscription terminal =>
    obtain ⟨-, -, -, -, hafter⟩ :=
      State.forwardNotification_frame capacity subscription terminal line
      { s with read := s.read ++ [line] }
    rcases hafter with hafter | hafter
    · rw [hafter]
      change s.pump.hasDrained = false
      rw [hpump]
      rfl
    · rw [hafter]
      cases terminal <;> rfl
  | response id subscription =>
    dsimp only
    cases s.pending id with
    | none => simp [hpump, Pump.hasDrained]
    | some number => rfl

theorem respond_pump (s : State) (number : Nat) (line : String)
    (subscription : Option SubscriptionId) :
    (s.respond number line subscription).pump = .reading := by
  have hsend : ∀ (s : State) response, (s.sendResponse number response).pump = s.pump := by
    intro s response
    unfold State.sendResponse
    cases s.calls[number]? with
    | none => rfl
    | some call =>
      dsimp only
      split
      · exact (dropResponse_frame _ _).2.2
      · rfl
  unfold State.respond
  cases subscription with
  | none => exact hsend _ _
  | some minted => exact hsend _ _

/-- A spared step strands no call. -/
theorem Answered.step (hinv : Inv fromStr s) (h : Answered s) (hspared : Spared action s)
    (hstep : step fromStr capacity action s = some t) : Answered t := by
  have hread : t.pump.hasDrained = false → Answered t :=
    fun hnot hc => absurd (hnot.symm.trans hc) Bool.false_ne_true
  cases action with
  | register id =>
    cases hstep
    unfold State.register
    cases hpending : s.pending id with
    | some number => exact h
    | none =>
      intro hdrained i later hlater hphase other hc
      change (s.calls ++ [_])[i]? = some later at hlater
      change Function.update s.pending id (some s.calls.length) other = some i at hc
      by_cases hlt : i < s.calls.length
      · rw [List.getElem?_append_left hlt] at hlater
        by_cases hother : other = id
        · rw [hother, Function.update_self] at hc
          cases hc
          exact Nat.lt_irrefl _ hlt
        · rw [Function.update_of_ne hother] at hc
          exact h hdrained i later hlater hphase other hc
      · rw [List.getElem?_append_right (Nat.le_of_not_lt hlt), List.getElem?_singleton] at hlater
        split at hlater
        · cases hlater
          cases hphase
        · cases hlater
  | written number =>
    obtain ⟨call, hcall, -, rfl⟩ := step_written hstep
    intro hdrained i later hlater hphase other hc
    rcases getElem?_modify_some hlater with ⟨rfl, -, -, -⟩ | ⟨-, hbefore⟩
    · obtain ⟨⟨same, hsame, hid⟩, -⟩ := hinv.pending other i hc
      rw [hcall] at hsame
      cases hsame
      exact hspared hdrained call hcall (hid.symm ▸ hc)
    · exact h hdrained i later hbefore hphase other hc
  | writeFailed number =>
    obtain ⟨call, -, rfl⟩ := step_writeFailed hstep
    obtain ⟨hcalls, hpending, hpump⟩ := dropResponse_frame
      { s with pending := Function.update s.pending call.id none } call
    refine h.kept (fun hc => ?_) (fun i later hlater hphase => ?_) (fun id i hc => ?_)
    · exact hpump ▸ hc
    · exact hcalls ▸ awaiting_of_gone hlater hphase
    · change (State.dropResponse _ call).pending id = some i at hc
      rw [hpending] at hc
      by_cases hother : id = call.id
      · rw [hother] at hc
        change Function.update s.pending call.id none call.id = some i at hc
        rw [Function.update_self] at hc
        cases hc
      · change Function.update s.pending call.id none id = some i at hc
        rwa [Function.update_of_ne hother] at hc
  | wake number =>
    rw [step_wake hstep]
    exact h.kept (fun hc => hc) (fun _ _ => awaiting_of_gone) (fun _ _ hc => hc)
  | dropCall number =>
    obtain ⟨call, -, rfl⟩ := step_dropCall hstep
    obtain ⟨hcalls, hpending, hpump⟩ := dropResponse_frame s call
    refine h.kept (fun hc => ?_) (fun i later hlater hphase => ?_) (fun id i hc => ?_)
    · exact hpump ▸ hc
    · exact hcalls ▸ awaiting_of_gone hlater hphase
    · exact hpending ▸ hc
  | line line =>
    obtain ⟨hpump, hstep⟩ := Option.ite_none_right_eq_some.mp hstep
    cases hstep
    exact hread (route_pump hpump)
  | respond =>
    obtain ⟨number, line, subscription, -, rfl⟩ := step_respond hstep
    exact hread (by rw [respond_pump]; rfl)
  | cancelled =>
    obtain ⟨-, rfl⟩ := step_cancelled hstep
    exact fun hc => (by cases hc)
  | drain =>
    obtain ⟨-, hstep⟩ := Option.ite_none_right_eq_some.mp hstep
    cases hstep
    exact fun _ _ _ _ _ _ hc => (by cases hc)
  | clear =>
    obtain ⟨hpump, hstep⟩ := Option.ite_none_right_eq_some.mp hstep
    cases hstep
    exact h.kept (fun _ => (by rw [hpump]; rfl)) (fun _ _ hc _ => hc) (fun _ _ hc => hc)
  | take number =>
    rw [step_take hstep]
    exact h
  | dropReceiver number =>
    cases hstep
    exact h

/-! ### Notifications -/

/-- A queue as its consumer leaves it. -/
structure Queue.Consumed (queue later : Queue) : Prop where
  subscription : later.subscription = queue.subscription
  lines : later.lines = queue.lines
  overflowed : later.overflowed = queue.overflowed
  stop : later.stop = queue.stop
  held : queue.held = false → later.held = false

theorem Queue.Consumed.refl (queue : Queue) : queue.Consumed queue :=
  ⟨rfl, rfl, rfl, rfl, fun hheld => hheld⟩

theorem Continued.kept (h : Continued fromStr s)
    (hqueues : ∀ (i : Nat) (later : Queue), t.queues[i]? = some later → later.stop ≠ none →
      Over fromStr t later ∨ ∃ queue, s.queues[i]? = some queue ∧ queue.Consumed later)
    (hpump : s.pump = .finished → t.pump = .finished) : Continued fromStr t := by
  intro i later hlater hstop
  rcases hqueues i later hlater hstop with hover | ⟨queue, hqueue, hconsumed⟩
  · exact hover
  · rcases h i queue hqueue (hconsumed.stop ▸ hstop) with
      ⟨line, hline, hcloses⟩ | hover | hheld | hend
    · exact .inl ⟨line, hconsumed.lines ▸ hline, hconsumed.subscription ▸ hcloses⟩
    · exact .inr (.inl (hconsumed.overflowed ▸ hover))
    · exact .inr (.inr (.inl (hconsumed.held hheld)))
    · exact .inr (.inr (.inr (hpump hend)))

theorem Continued.same (h : Continued fromStr s) (hqueues : t.queues = s.queues)
    (hpump : s.pump = .finished → t.pump = .finished) : Continued fromStr t :=
  h.kept (fun _ later hlater _ => .inr ⟨later, hqueues ▸ hlater, .refl later⟩) hpump

theorem Continued.consume {f : Queue → Queue} (h : Continued fromStr s)
    (hqueues : t.queues = s.queues.modify number f) (hf : ∀ q : Queue, q.Consumed (f q))
    (hpump : s.pump = .finished → t.pump = .finished) : Continued fromStr t := by
  refine h.kept (fun i later hlater _ => .inr ?_) hpump
  rw [hqueues] at hlater
  rcases getElem?_modify_some hlater with ⟨rfl, before, hbefore, rfl⟩ | ⟨-, hbefore⟩
  · exact ⟨before, hbefore, hf before⟩
  · exact ⟨later, hbefore, .refl later⟩

theorem Continued.dropReceiver (h : Continued fromStr s) (number : Nat) :
    Continued fromStr (s.dropReceiver number) :=
  h.consume rfl (fun _ => ⟨rfl, rfl, rfl, rfl, fun _ => rfl⟩) (fun hc => hc)

theorem Continued.dropResponse (h : Continued fromStr s) (call : Call) :
    Continued fromStr (s.dropResponse call) := by
  unfold State.dropResponse
  cases call.response.bind PumpedResponse.subscription with
  | none => exact h
  | some queue => exact h.dropReceiver queue

/-- The registered queue stops only when it is over. -/
theorem Continued.forwardNotification (h : Continued fromStr s)
    {subscription : SubscriptionId} {terminal : Bool}
    (hline : decode fromStr line = .notification subscription terminal)
    (hpresent : ∀ number, s.subscriptions subscription = some number →
      ∃ queue, s.queues[number]? = some queue ∧ queue.subscription = subscription)
    (hstops : ∀ number queue, s.subscriptions subscription = some number →
      s.queues[number]? = some queue → queue.stop = none)
    (hpump : s.pump = .reading) :
    Continued fromStr (s.forwardNotification capacity subscription terminal line) := by
  unfold State.forwardNotification
  cases hnumber : s.subscriptions subscription with
  | none => exact h
  | some number =>
    obtain ⟨queue, hqueue, hown⟩ := hpresent number hnumber
    have hstop := hstops number queue hnumber hqueue
    dsimp only
    rw [hqueue]
    dsimp only
    have hchange : ∀ (t : State) (f : Queue → Queue), t.queues = s.queues.modify number f →
        ((f queue).stop ≠ none → Over fromStr t (f queue)) → Continued fromStr t := by
      intro t f hqueues hover
      refine h.kept (fun i later hlater hstops => ?_) (fun hc => (by rw [hpump] at hc; cases hc))
      rw [hqueues] at hlater
      rcases getElem?_modify_some hlater with ⟨rfl, before, hbefore, rfl⟩ | ⟨-, hbefore⟩
      · rw [hqueue] at hbefore
        cases hbefore
        exact .inl (hover hstops)
      · exact .inr ⟨later, hbefore, .refl later⟩
    by_cases hheld : (!queue.held) = true
    · rw [if_pos hheld]
      refine hchange _ _ rfl fun _ => .inr (.inr (.inl ?_))
      rwa [Bool.not_eq_true'] at hheld
    · rw [if_neg hheld]
      by_cases hroom : queue.lines.length - queue.taken < capacity
      · rw [if_pos hroom]
        cases terminal with
        | false => exact hchange _ _ rfl fun hc => absurd hstop hc
        | true =>
          refine hchange _ _ (List.modify_modify_eq _ _ _ _) fun _ => .inl ⟨line, ?_, ?_⟩
          · exact List.mem_append_right _ (List.mem_singleton.mpr rfl)
          · change closes fromStr queue.subscription line = true
            rw [closes, hline, hown]
            simp
      · rw [if_neg hroom]
        exact hchange _ _ (List.modify_modify_eq _ _ _ _) fun _ => .inr (.inl rfl)

/-- The queue a response takes over from was abandoned. -/
theorem Continued.mint (h : Continued fromStr s) {subscription : SubscriptionId}
    (hspared : ∀ number ∈ s.subscriptions subscription, ∀ queue ∈ s.queues[number]?,
      queue.held = false) : Continued fromStr (s.mint subscription) := by
  have hnew : ∀ (queues : List Queue) (i : Nat) (later : Queue), later.stop ≠ none →
      (queues ++ [⟨subscription, [], 0, true, false, s.read.length - 1, none⟩])[i]? = some later →
      queues[i]? = some later := by
    intro queues i later hstop hlater
    by_cases hlt : i < queues.length
    · rwa [List.getElem?_append_left hlt] at hlater
    · rw [List.getElem?_append_right (Nat.le_of_not_lt hlt), List.getElem?_singleton] at hlater
      split at hlater
      · cases hlater
        exact absurd rfl hstop
      · cases hlater
  unfold State.mint
  cases hnumber : s.subscriptions subscription with
  | none =>
    exact h.kept (fun i later hlater hstop =>
      .inr ⟨later, hnew _ i later hstop hlater, .refl later⟩) (fun hc => hc)
  | some number =>
    refine h.kept (fun i later hlater hstop => ?_) (fun hc => hc)
    rcases getElem?_modify_some (hnew _ i later hstop hlater) with
      ⟨rfl, before, hbefore, rfl⟩ | ⟨-, hbefore⟩
    · exact .inl (.inr (.inr (.inl (hspared i hnumber before hbefore))))
    · exact .inr ⟨later, hbefore, .refl later⟩

theorem Continued.sendResponse (h : Continued fromStr s) (number : Nat)
    (response : PumpedResponse) : Continued fromStr (s.sendResponse number response) := by
  unfold State.sendResponse
  cases s.calls[number]? with
  | none => exact h
  | some call =>
    dsimp only
    split
    · exact h.dropResponse _
    · exact h.same rfl (fun hc => hc)

/-- A spared step stops no queue that is in use. -/
theorem Continued.step (hinv : Inv fromStr s) (h : Continued fromStr s)
    (hspared : Spared action s) (hstep : step fromStr capacity action s = some t) :
    Continued fromStr t := by
  cases action with
  | register id =>
    cases hstep
    unfold State.register
    cases s.pending id with
    | some number => exact h
    | none => exact h.same rfl (fun hc => hc)
  | written number =>
    obtain ⟨call, -, -, rfl⟩ := step_written hstep
    exact h.same rfl (fun hc => hc)
  | writeFailed number =>
    obtain ⟨call, -, rfl⟩ := step_writeFailed hstep
    have hunpended : Continued fromStr
        { s with pending := Function.update s.pending call.id none } := h.same rfl (fun hc => hc)
    exact (hunpended.dropResponse call).same rfl (fun hc => hc)
  | wake number =>
    rw [step_wake hstep]
    exact h.same rfl (fun hc => hc)
  | dropCall number =>
    obtain ⟨call, -, rfl⟩ := step_dropCall hstep
    exact (h.dropResponse call).same rfl (fun hc => hc)
  | line line =>
    obtain ⟨hpump, hstep⟩ := Option.ite_none_right_eq_some.mp hstep
    cases hstep
    have hgrown : Continued fromStr { s with read := s.read ++ [line] } :=
      h.same rfl (fun hc => hc)
    unfold State.route
    dsimp only
    cases hline : decode fromStr line with
    | unknown => exact hgrown
    | notification subscription terminal =>
      exact hgrown.forwardNotification hline (hinv.streams.present subscription)
        (fun number queue hnumber hqueue =>
          (Streams.running_of_registered hinv.streams hnumber hqueue).2) hpump
    | response id subscription =>
      dsimp only
      cases s.pending id with
      | none => exact hgrown
      | some number => exact h.same rfl (fun hc => (by rw [hpump] at hc; cases hc))
  | respond =>
    obtain ⟨number, line, subscription, hpump, rfl⟩ := step_respond hstep
    have hreading : Continued fromStr { s with pump := .reading } :=
      h.same rfl (fun hc => (by rw [hpump] at hc; cases hc))
    unfold State.respond
    cases subscription with
    | none => exact hreading.sendResponse number _
    | some minted =>
      rw [Spared, hpump] at hspared
      exact (hreading.mint (hspared minted rfl)).sendResponse number _
  | cancelled =>
    obtain ⟨⟨subscription, hpump⟩, rfl⟩ := step_cancelled hstep
    exact h.same rfl (fun hc => (by rw [hpump] at hc; cases hc))
  | drain =>
    obtain ⟨hpump, hstep⟩ := Option.ite_none_right_eq_some.mp hstep
    cases hstep
    exact h.same rfl (fun hc => (by rw [hpump] at hc; cases hc))
  | clear =>
    obtain ⟨-, hstep⟩ := Option.ite_none_right_eq_some.mp hstep
    cases hstep
    exact fun _ _ _ _ => .inr (.inr (.inr rfl))
  | take number =>
    rw [step_take hstep]
    exact h.consume rfl (fun _ => ⟨rfl, rfl, rfl, rfl, fun hheld => hheld⟩) (fun hc => hc)
  | dropReceiver number =>
    cases hstep
    exact h.dropReceiver number

/-! ### The condition is exact -/

/-- A write that succeeds for a call registered after the drain strands it. -/
theorem not_answered_of_written (hstep : step fromStr capacity (.written number) s = some t)
    (hspared : ¬ Spared (.written number) s) : ¬ Answered t := by
  obtain ⟨call, hcall, -, rfl⟩ := step_written hstep
  intro hanswered
  refine hspared fun hdrained other hother hc => ?_
  obtain rfl : call = other := Option.some.inj (hcall.symm.trans hother)
  have hlater :
      (s.setPhase number .awaiting).calls[number]? = some { call with phase := .awaiting } := by
    change (s.calls.modify number _)[number]? = _
    rw [List.getElem?_modify, hcall]
    simp
  exact hanswered hdrained number _ hlater rfl call.id hc

theorem queues_sendResponse (s : State) (call minted : Nat) (line : String) {i : Nat}
    (hne : i ≠ minted) :
    (s.sendResponse call ⟨line, some minted⟩).queues[i]? = s.queues[i]? := by
  unfold State.sendResponse
  cases s.calls[call]? with
  | none => rfl
  | some target =>
    dsimp only
    split
    · change (s.queues.modify minted _)[i]? = _
      rw [List.getElem?_modify]
      simp [Ne.symm hne]
    · rfl

/-- A response that mints a subscription in use stops its queue. -/
theorem not_continued_of_respond (hinv : Inv fromStr s)
    (hstep : step fromStr capacity .respond s = some t) (hspared : ¬ Spared .respond s) :
    ¬ Continued fromStr t := by
  obtain ⟨call, line, subscription, hpump, rfl⟩ := step_respond hstep
  rw [Spared, hpump] at hspared
  cases subscription with
  | none => exact absurd (fun _ hc => (by cases hc)) hspared
  | some minted =>
    intro hcontinued
    refine hspared fun subscription hsubscription number hnumber queue hqueue => ?_
    obtain rfl : minted = subscription := Option.some.inj hsubscription
    obtain ⟨-, hstop⟩ := Streams.running_of_registered hinv.streams hnumber hqueue
    obtain ⟨hoverflowed, hopen⟩ := (hinv.streams.fits number queue hqueue).running hstop
    obtain ⟨hlt, -⟩ := List.getElem?_eq_some_iff.mp hqueue
    have hstopped : (s.respond call line (some minted)).queues[number]? =
        some { queue with stop := some (s.read.length - 1) } := by
      rw [State.respond, queues_sendResponse _ _ _ _ (Nat.ne_of_lt hlt), State.mint]
      dsimp only
      rw [hnumber]
      change (s.queues.modify number _ ++ _)[number]? = _
      rw [List.getElem?_append_left (by rwa [List.length_modify]), List.getElem?_modify, hqueue]
      simp
    rcases hcontinued number _ hstopped (Option.some_ne_none _) with
      ⟨other, hother, hcloses⟩ | hover | hheld | hend
    · exact absurd hcloses (by rw [hopen other hother]; exact Bool.false_ne_true)
    · exact absurd (hoverflowed.symm.trans hover) Bool.false_ne_true
    · exact hheld
    · rw [respond_pump] at hend
      cases hend

variable (fromStr) in
/-- What the connection promises: every line goes to the call that registered its id, or in order to
the queue of its subscription until that is over, and no call is left waiting at the end. -/
structure Sound (s : State) : Prop where
  routed : Routed fromStr s
  notified : Notified fromStr s
  continued : Continued fromStr s
  answered : Answered s

theorem Sound.step_iff (hinv : Inv fromStr s) (h : Sound fromStr s)
    (hstep : step fromStr capacity action s = some t) : Spared action s ↔ Sound fromStr t := by
  constructor
  · intro hspared
    have hafter := hinv.step hstep
    exact ⟨hafter.routed, ⟨fun i queue hqueue => (hafter.streams.fits i queue hqueue).lines,
      hafter.streams.exclusive⟩, h.continued.step hinv hspared hstep,
      h.answered.step hinv hspared hstep⟩
  · intro hsound
    by_contra hspared
    cases action with
    | written number => exact not_answered_of_written hstep hspared hsound.answered
    | respond => exact not_continued_of_respond hinv hstep hspared hsound.continued
    | _ => exact hspared trivial

end Invariant

/-- **The demultiplexer neither misroutes nor strands.** In every run each response line is handed
only to the call registered under its id, a line and a call at most once, and each queue has the
notifications of its subscription in order, which no other queue has. In every state of the run no
queue stops before its subscription is over, and after the drain no call awaits with its sender in
the map, if and only if no write succeeds for a call that registered after the drain and no response
mints a subscription whose queue is in use. -/
theorem demultiplexer_sound_iff (fromStr : String → Option Value) (capacity : Nat)
    (actions : List Action) (s : State)
    (h : Machine.run (step fromStr capacity) actions .initial = some s) :
    Routed fromStr s ∧ Notified fromStr s ∧
    ((∀ front rest t, actions = front ++ rest →
        Machine.run (step fromStr capacity) front .initial = some t → Sound fromStr t) ↔
      Machine.Along (step fromStr capacity) Spared actions .initial) := by
  have hkeep : ∀ e s t, step fromStr capacity e s = some t → Inv fromStr s → Inv fromStr t :=
    fun _ _ _ hstep hinv => hinv.step hstep
  have hfirst : Inv fromStr .initial := Inv.initial
  have hinv : Inv fromStr s := Machine.run_invariant hkeep h hfirst
  have hsound : Sound fromStr .initial :=
    ⟨hfirst.routed, ⟨fun _ _ hc => (by cases hc), hfirst.streams.exclusive⟩,
      fun _ _ hc => (by cases hc), fun hc => (by cases hc)⟩
  refine ⟨hinv.routed, ⟨fun i queue hqueue => (hinv.streams.fits i queue hqueue).lines,
    hinv.streams.exclusive⟩, Iff.symm ?_⟩
  exact Machine.along_iff hkeep (fun _ _ _ hstep hinv hsound => hsound.step_iff hinv hstep) h
    hfirst hsound

/-! ## A request after the end -/

/-- A connection whose read half has ended accepts a request and its write: nobody is left to answer
it, and its sender stays in the map. -/
theorem demultiplexer_strands_late_request :
    ∃ s, Machine.run (step (fun _ => none) 1024)
        [.drain, .clear, .register (.integer 1), .written 0] .initial = some s ∧
      s.pump = .finished ∧ s.pending (.integer 1) = some 0 ∧
      step (fun _ => none) 1024 (.wake 0) s = none ∧ ¬ Answered s := by
  refine ⟨_, rfl, rfl, rfl, rfl, fun hanswered => ?_⟩
  exact hanswered rfl 0 _ rfl rfl (.integer 1) rfl

namespace Sample

/-- The response to request `1` that mints the subscription `s`. -/
def responseLine : String := "\x7b\"id\":1,\"result\":\x7b\"subscriptionId\":\"s\"\x7d\x7d"

/-- A notification of the subscription `s`. -/
def eventLine : String :=
  "\x7b\"method\":\"event\",\"params\":\x7b\"subscriptionId\":\"s\"\x7d\x7d"

def fromStr (line : String) : Option Value :=
  if line = responseLine then
    some (.object [("id", .number (.int 1)),
      ("result", .object [("subscriptionId", .string "s")])])
  else if line = eventLine then
    some (.object [("method", .string "event"),
      ("params", .object [("subscriptionId", .string "s")])])
  else none

/-- A subscription with one event; the connection ends, and a later request is not written. -/
def actions : List Action :=
  [.register (.integer 1), .written 0, .line responseLine, .respond, .wake 0, .line eventLine,
    .take 0, .drain, .clear, .register (.integer 2), .writeFailed 1]

end Sample

open Multiplex.Sample in
/-- The caller of `actions` has its response and its event, and no call is left waiting. -/
theorem demultiplexer_sound_iff_event :
    ∃ s, Machine.run (step fromStr 1024) actions .initial = some s ∧ s.handed = [(0, 0)] ∧
      s.queues.map Queue.lines = [[eventLine]] ∧ Routed fromStr s ∧ Sound fromStr s := by
  obtain ⟨s, hrun, hhanded, hlines⟩ :
      ∃ s, Machine.run (step fromStr 1024) actions .initial = some s ∧ s.handed = [(0, 0)] ∧
        s.queues.map Queue.lines = [[eventLine]] := ⟨_, rfl, rfl, rfl⟩
  have hspared : Machine.Along (step fromStr 1024) Spared actions .initial := by
    decide
  have hsound := demultiplexer_sound_iff fromStr 1024 actions s hrun
  exact ⟨s, hrun, hhanded, hlines, hsound.1,
    hsound.2.2.mpr hspared actions [] s (List.append_nil _).symm hrun⟩

end Zeroshot.Multiplex
