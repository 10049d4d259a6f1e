import Zeroshot.Watch.Client

set_option autoImplicit false
set_option linter.unusedSectionVars false

/-!
# Watching with reconnects, on a connection

`WatchSubscriptionEventStream` has the same tally as the client in one process, but its items come
over a connection: the server's task writes what its `WatchEventStream` yields, the pump forwards
each notification to the bounded queue of its subscription, and a queue that is full is dropped with
its frames kept. The two queues overflow independently, and the client reconnects from the last
event it handed over, wherever the server had come to.

The path from the client to the store is cut into queues: the client's own, the wire, and what the
server's stream still holds. Frames of earlier subscriptions of the client carry another id; they
may turn up on the wire at any time.
-/

namespace Zeroshot.Watch

open Machine

/-! ## The connection -/

section

variable (RunId Cursor Event : Type)

/-- A line from the server. -/
inductive Frame
  | response (subscription : Nat) (runId : Option RunId)
  | notification (subscription : Nat) (item : WatchStreamItem RunId Cursor Event)
  deriving DecidableEq, Repr

structure WatchSubscriptionEventStream where
  subscription : Nat
  receiver : BoundedQueue (WatchStreamItem RunId Cursor Event)
  runId : Option RunId
  tally : Tally RunId Cursor Event
  closed : Bool

/-- Where the client stands: `opening` from the `watch` request to its response, with the
subscription once the server has taken up the request; `failed` when the request got no response. -/
inductive WireClient
  | idle
  | opening (runId : Option RunId) (tally : Tally RunId Cursor Event) (subscription : Option Nat)
  | streaming (stream : WatchSubscriptionEventStream RunId Cursor Event)
  | failed (tally : Tally RunId Cursor Event)

/-- The committed events, the server's task for the client's current subscription, the lines on
their way, and the client. -/
structure Connection where
  history : List (PublicEventRecord RunId Cursor Event)
  minted : Nat
  server : Option (Nat × WatchEventStream RunId Cursor Event)
  wire : List (Frame RunId Cursor Event)
  client : WireClient RunId Cursor Event

inductive ConnectionEvent
  | commit (cursor : Cursor) (event : Event)
  | redeliver
  | hangUp
  /-- `WatchSubscriptionClient::watch` sends its request. -/
  | watch
  /-- `WatchSubscriptionEventStream::reconnect` sends its request. -/
  | reconnect
  /-- The server takes up the request. -/
  | accept (parked : Bool) (capacity : Nat)
  /-- One pass of the server's task. -/
  | serve (answer : Option Nat)
  /-- The server's task ends: it is cancelled, or an item cannot be encoded or written. -/
  | stop
  /-- A notification of an earlier subscription. -/
  | stray (subscription : Nat) (item : WatchStreamItem RunId Cursor Event)
  /-- The pump routes the next line. -/
  | pump
  /-- The connection ends. -/
  | disconnect
  /-- One pass of `try_next`. -/
  | next
  deriving DecidableEq, Repr

end

section

variable {RunId Cursor Event : Type} [DecidableEq RunId] [DecidableEq Cursor]

def Frame.subscription : Frame RunId Cursor Event → Nat
  | .response subscription _ => subscription
  | .notification subscription _ => subscription

def WatchStreamItem.isTerminal : WatchStreamItem RunId Cursor Event → Bool
  | .record _ => false
  | .closed _ _ => true

/-- `forward_notification`, to the registered queue of the subscription: a queue is dropped once it
is full, or has taken the terminal notification. -/
def forwardNotification (queue : BoundedQueue (WatchStreamItem RunId Cursor Event))
    (item : WatchStreamItem RunId Cursor Event) :
    BoundedQueue (WatchStreamItem RunId Cursor Event) :=
  if queue.accepts && item.isTerminal then (queue.offer item).hangUp else queue.offer item

/-- The subscription whose notifications the client waits for. -/
def WireClient.current : WireClient RunId Cursor Event → Option Nat
  | .streaming stream => some stream.subscription
  | .opening _ _ subscription => subscription
  | _ => none

/-- The events handed to the caller. -/
def WireClient.handed : WireClient RunId Cursor Event → List (PublicEventRecord RunId Cursor Event)
  | .idle => []
  | .opening _ tally _ => tally.handed
  | .streaming stream => stream.tally.handed
  | .failed tally => tally.handed

namespace WatchSubscriptionEventStream

/-- `parse_notification` on the next line of the receiver. -/
def parseNotification (stream : WatchSubscriptionEventStream RunId Cursor Event)
    (rest : List (WatchStreamItem RunId Cursor Event)) :
    WatchStreamItem RunId Cursor Event → WatchSubscriptionEventStream RunId Cursor Event
  | .record record =>
    { stream with
      receiver := { stream.receiver with items := rest }
      runId := some (stream.runId.getD record.runId)
      tally := stream.tally.take (.record record) }
  | .closed reason cursor =>
    { stream with
      receiver := { stream.receiver with items := rest }
      tally := stream.tally.take (.closed reason cursor)
      closed := true }

/-- One pass of `try_next`: a queue that was dropped ends the stream, by a local close when it had
overflowed. -/
def tryNext (stream : WatchSubscriptionEventStream RunId Cursor Event) :
    WatchSubscriptionEventStream RunId Cursor Event :=
  if stream.closed then stream
  else
    match stream.receiver.items with
    | item :: rest => stream.parseNotification rest item
    | [] =>
      if stream.receiver.registered then stream
      else { stream with receiver := { stream.receiver with overflowed := false }, closed := true }

end WatchSubscriptionEventStream

/-- `route_pumped_message`: a response opens the queue of its subscription, a notification goes to
the queue of its own. A dedicated connection waits for room in the queue. -/
def routePumpedMessage (backpressured : Bool) (capacity : Nat)
    (client : WireClient RunId Cursor Event) (frame : Frame RunId Cursor Event) :
    Option (WireClient RunId Cursor Event) :=
  match frame, client with
  | .response subscription runId, .opening _ tally (some awaited) =>
    if subscription = awaited then
      some (.streaming
        { subscription := subscription
          receiver := .new capacity
          runId := runId
          tally := tally
          closed := false })
    else some client
  | .notification subscription item, .streaming stream =>
    if stream.subscription = subscription then
      if backpressured && stream.receiver.registered && !stream.receiver.accepts then none
      else some (.streaming
        { stream with receiver := forwardNotification stream.receiver item })
    else some client
  | _, _ => some client

/-- What a pass of the server's task writes. -/
def Connection.afterTurn (s : Connection RunId Cursor Event) (subscription : Nat) :
    Turn RunId Cursor Event × WatchEventStream RunId Cursor Event → Connection RunId Cursor Event
  | (.yields item, stream) =>
    { s with
      server := some (subscription, stream)
      wire := s.wire ++ [.notification subscription item] }
  | (.ended, _) => { s with server := none }
  | (_, stream) => { s with server := some (subscription, stream) }

def Connection.onStream (s : Connection RunId Cursor Event)
    (f : WatchEventStream RunId Cursor Event → WatchEventStream RunId Cursor Event) :
    Connection RunId Cursor Event :=
  { s with server := s.server.map fun (subscription, stream) => (subscription, f stream) }

def WireClient.hangUp : WireClient RunId Cursor Event → WireClient RunId Cursor Event
  | .idle => .idle
  | .opening _ tally _ => .failed tally
  | .streaming stream => .streaming { stream with receiver := stream.receiver.hangUp }
  | .failed tally => .failed tally

/-- One step of the store, the server, the connection or the client. -/
def connectionStep (run : RunId) (params : WatchParams RunId Cursor) (backpressured : Bool)
    (queueCapacity : Nat) :
    ConnectionEvent RunId Cursor Event → Connection RunId Cursor Event →
      Option (Connection RunId Cursor Event)
  | .commit cursor event, s =>
    if s.history.any (·.cursor = cursor) then none
    else some { s.onStream (.fanOut ⟨run, cursor, event⟩) with
      history := s.history ++ [⟨run, cursor, event⟩] }
  | .redeliver, s =>
    match s.history.getLast? with
    | none => none
    | some record => some (s.onStream (.fanOut record))
  | .hangUp, s => some (s.onStream .hangUp)
  | .watch, s =>
    match s.client with
    | .idle => some { s with
        client := .opening params.runId ⟨[], params.fromCursor, []⟩ none }
    | _ => none
  | .reconnect, s =>
    match s.client with
    | .streaming stream => some { s with
        server := none
        client := .opening stream.runId stream.tally none }
    | _ => none
  | .accept parked capacity, s =>
    match s.client with
    | .opening runId tally none =>
      (subscribe run s.history ⟨runId, tally.lastDelivered⟩ parked capacity).map fun resolved =>
        { s with
          minted := s.minted + 1
          server := some (s.minted, .new resolved)
          wire := s.wire ++ [.response s.minted resolved.runId]
          client := .opening runId tally (some s.minted) }
    | _ => none
  | .serve answer, s =>
    s.server.map fun (subscription, stream) =>
      s.afterTurn subscription (stream.turn s.history answer)
  | .stop, s => some { s with server := none }
  | .stray subscription item, s =>
    if subscription < s.minted ∧ s.client.current ≠ some subscription then
      some { s with wire := s.wire ++ [.notification subscription item] }
    else none
  | .pump, s =>
    match s.wire with
    | [] => none
    | frame :: rest =>
      (routePumpedMessage backpressured queueCapacity s.client frame).map fun client =>
        { s with wire := rest, client := client }
  | .disconnect, s => some { s with server := none, wire := [], client := s.client.hangUp }
  | .next, s =>
    match s.client with
    | .streaming stream => some { s with client := .streaming stream.tryNext }
    | _ => none

/-! ## The invariant -/

/-- The items on the wire for one subscription. -/
def sentTo (subscription : Nat) (wire : List (Frame RunId Cursor Event)) :
    List (WatchStreamItem RunId Cursor Event) :=
  wire.filterMap fun
    | .notification other item => if other = subscription then some item else none
    | .response _ _ => none

def Frame.isResponse : Frame RunId Cursor Event → Bool
  | .response _ _ => true
  | .notification _ _ => false

variable {history : List (PublicEventRecord RunId Cursor Event)} {run : RunId}
  {params : WatchParams RunId Cursor} {backpressured : Bool} {queueCapacity start p q : Nat}
  {s t : Connection RunId Cursor Event}

/-- What is on the wire leads from a position to the server's stream, which reads on from there. -/
def Feeds (history : List (PublicEventRecord RunId Cursor Event)) (start subscription p : Nat)
    (server : Option (Nat × WatchEventStream RunId Cursor Event))
    (wire : List (Frame RunId Cursor Event)) : Prop :=
  ∃ q, Path (Moves history start) p (sentTo subscription wire) q ∧
    ∀ task, server = some task → task.1 = subscription ∧ Reads history start q task.2

/-- The tally before the server has taken up the first request. -/
def freshTally (params : WatchParams RunId Cursor) : Tally RunId Cursor Event :=
  ⟨[], params.fromCursor, []⟩

/-- A tally at a position, counted from the initial cursor. -/
structure Placed (history : List (PublicEventRecord RunId Cursor Event))
    (params : WatchParams RunId Cursor) (start p : Nat) (tally : Tally RunId Cursor Event) :
    Prop where
  fromCursor : params.fromCursor = cursorAt history start
  holds : Holds history start p tally

/-- Where the client stands, and the way from its position to the store. -/
def Standing (history : List (PublicEventRecord RunId Cursor Event))
    (params : WatchParams RunId Cursor)
    (server : Option (Nat × WatchEventStream RunId Cursor Event))
    (wire : List (Frame RunId Cursor Event)) : WireClient RunId Cursor Event → Prop
  | .idle => ∀ frame ∈ wire, frame.isResponse = false
  | .opening _ tally none =>
    (∀ frame ∈ wire, frame.isResponse = false) ∧
      (tally = freshTally params ∨ ∃ start p, Placed history params start p tally)
  | .opening _ tally (some subscription) =>
    ∃ start p, Placed history params start p tally ∧
      ∃ front runId rest, wire = front ++ .response subscription runId :: rest ∧
        (∀ frame ∈ front, frame.isResponse = false ∧ frame.subscription ≠ subscription) ∧
        (∀ frame ∈ rest, frame.isResponse = false) ∧
        Feeds history start subscription p server rest
  | .streaming stream =>
    (∀ frame ∈ wire, frame.isResponse = false) ∧
      ∃ start p, Placed history params start p stream.tally ∧
        ∃ m, Path (Moves history start) p stream.receiver.items m ∧
          (stream.receiver.registered = true →
            Feeds history start stream.subscription m server wire)
  | .failed tally =>
    tally = freshTally params ∨ ∃ start p, Placed history params start p tally

structure Connection.Inv (run : RunId) (params : WatchParams RunId Cursor)
    (s : Connection RunId Cursor Event) : Prop where
  oneRun : OneRun run s.history
  wireMinted : ∀ frame ∈ s.wire, frame.subscription < s.minted
  serverMinted : ∀ task, s.server = some task → task.1 < s.minted
  standing : Standing s.history params s.server s.wire s.client

/-! ## Wires -/

section Wires

variable {wire : List (Frame RunId Cursor Event)} {subscription other : Nat}
  {item : WatchStreamItem RunId Cursor Event}
  {server : Option (Nat × WatchEventStream RunId Cursor Event)}

@[simp] theorem sentTo_append (front rest : List (Frame RunId Cursor Event)) :
    sentTo subscription (front ++ rest) = sentTo subscription front ++ sentTo subscription rest :=
  List.filterMap_append

@[simp] theorem sentTo_self :
    sentTo subscription (.notification subscription item :: wire) =
      item :: sentTo subscription wire := by
  simp [sentTo]

theorem sentTo_other (h : other ≠ subscription) :
    sentTo subscription (.notification other item :: wire) = sentTo subscription wire := by
  simp [sentTo, h]

theorem Feeds.stop (h : Feeds history start subscription p server wire) :
    Feeds history start subscription p none wire := by
  obtain ⟨q, hpath, -⟩ := h
  exact ⟨q, hpath, fun _ hc => nomatch hc⟩

theorem Feeds.stray (h : Feeds history start subscription p server wire)
    (hother : other ≠ subscription) :
    Feeds history start subscription p server (wire ++ [.notification other item]) := by
  obtain ⟨q, hpath, hserver⟩ := h
  refine ⟨q, ?_, hserver⟩
  rw [sentTo_append, sentTo_other hother]
  simpa [sentTo] using hpath

/-- A pass of the server's task puts what its stream yields at the end of the wire. -/
theorem Feeds.serve (hunique : CursorsUnique history)
    {stream stream' : WatchEventStream RunId Cursor Event}
    (h : Feeds history start subscription p (some (other, stream)) wire) {answer : Option Nat}
    {outcome : Turn RunId Cursor Event} (hturn : stream.turn history answer = (outcome, stream')) :
    (∀ item, outcome = .yields item → Feeds history start subscription p (some (other, stream'))
        (wire ++ [.notification other item])) ∧
      ((∀ item, outcome ≠ .yields item) →
        Feeds history start subscription p (some (other, stream')) wire) := by
  obtain ⟨q, hpath, hserver⟩ := h
  obtain ⟨rfl, hreads⟩ := hserver _ rfl
  obtain ⟨q', hmoves, hreads'⟩ := hreads.turn hunique hturn
  constructor
  · rintro item rfl
    refine ⟨q', ?_, ?_⟩
    · rw [sentTo_append, sentTo_self]
      exact hpath.concat hmoves
    · rintro task ⟨⟩
      exact ⟨rfl, hreads'⟩
  · intro hsilent
    have hq : q' = q := by
      cases outcome with
      | yields item => exact absurd rfl (hsilent item)
      | looping => exact hmoves
      | waiting => exact hmoves
      | ended => exact hmoves
    subst hq
    refine ⟨q', hpath, ?_⟩
    rintro task ⟨⟩
    exact ⟨rfl, hreads'⟩

end Wires

/-! ## Steps -/

section Steps

variable {history' : List (PublicEventRecord RunId Cursor Event)} {minted : Nat}
  {server : Option (Nat × WatchEventStream RunId Cursor Event)}
  {wire : List (Frame RunId Cursor Event)} {client client' : WireClient RunId Cursor Event}
  {f : WatchEventStream RunId Cursor Event → WatchEventStream RunId Cursor Event}

/-- What the store does keeps every standing, when it keeps the position of the server's stream. -/
theorem Standing.update
    (hmoves : ∀ start p item q, Moves history start p item q → Moves history' start p item q)
    (hplaced : ∀ start p tally, Placed history params start p tally →
      Placed history' params start p tally)
    (hreads : ∀ start p q tally subscription stream, server = some (subscription, stream) →
      Placed history params start p tally → Reads history start q stream →
      Reads history' start q (f stream))
    (h : Standing history params server wire client) :
    Standing history' params (server.map fun (subscription, stream) => (subscription, f stream))
      wire client := by
  have hfeeds : ∀ start p tally subscription m wire, Placed history params start p tally →
      Feeds history start subscription m server wire →
      Feeds history' start subscription m
        (server.map fun (subscription, stream) => (subscription, f stream)) wire := by
    rintro start p tally subscription m wire hplace ⟨q, hpath, hserver⟩
    refine ⟨q, hpath.mono (hmoves start), fun task htask => ?_⟩
    obtain ⟨⟨subscription', stream⟩, htask', rfl⟩ := Option.map_eq_some_iff.mp htask
    obtain ⟨heq, hread⟩ := hserver _ htask'
    exact ⟨heq, hreads start p q tally _ _ htask' hplace hread⟩
  have hkept : ∀ tally : Tally RunId Cursor Event,
      (tally = freshTally params ∨ ∃ start p, Placed history params start p tally) →
      tally = freshTally params ∨ ∃ start p, Placed history' params start p tally := by
    rintro tally (hfresh | ⟨start, p, hplace⟩)
    · exact .inl hfresh
    · exact .inr ⟨start, p, hplaced start p tally hplace⟩
  cases client with
  | idle => exact h
  | failed tally => exact hkept tally h
  | streaming stream =>
    obtain ⟨hwire, start, p, hplace, m, hpath, hfed⟩ := h
    exact ⟨hwire, start, p, hplaced start p _ hplace, m, hpath.mono (hmoves start),
      fun hregistered => hfeeds start p _ _ m wire hplace (hfed hregistered)⟩
  | opening runId tally subscription =>
    cases subscription with
    | none => exact ⟨h.1, hkept tally h.2⟩
    | some subscription =>
      obtain ⟨start, p, hplace, front, runId', rest, hwire, hfront, hrest, hfed⟩ := h
      exact ⟨start, p, hplaced start p _ hplace, front, runId', rest, hwire, hfront, hrest,
        hfeeds start p _ _ p rest hplace hfed⟩

theorem Placed.append {more : List (PublicEventRecord RunId Cursor Event)}
    {tally : Tally RunId Cursor Event} (h : Placed history params start p tally) :
    Placed (history ++ more) params start p tally := by
  refine ⟨?_, h.holds.append⟩
  rw [cursorAt_append (h.holds.le.trans h.holds.bound)]
  exact h.fromCursor

/-- No redelivery of the event at the initial cursor enters the live queue of the server's task. -/
def SparesInitialWire (params : WatchParams RunId Cursor) :
    ConnectionEvent RunId Cursor Event → Connection RunId Cursor Event → Prop
  | .redeliver, s => (s.server.any fun task => task.2.listening) = true →
      params.fromCursor ≠ none → s.history.getLast?.map (·.cursor) ≠ params.fromCursor
  | _, _ => True

instance (params : WatchParams RunId Cursor) (e : ConnectionEvent RunId Cursor Event)
    (s : Connection RunId Cursor Event) : Decidable (SparesInitialWire params e s) := by
  cases e <;> unfold SparesInitialWire <;> infer_instance

theorem Connection.Inv.redeliver (h : s.Inv run params)
    (hspares : SparesInitialWire params .redeliver s)
    {record : PublicEventRecord RunId Cursor Event} (hlast : s.history.getLast? = some record) :
    (s.onStream (.fanOut record)).Inv run params := by
  refine ⟨h.oneRun, h.wireMinted, ?_, ?_⟩
  · intro task htask
    obtain ⟨task', htask', rfl⟩ := Option.map_eq_some_iff.mp htask
    exact h.serverMinted task' htask'
  · show Standing s.history params _ s.wire s.client
    refine Standing.update (fun _ _ _ _ => id) (fun _ _ _ => id) ?_ h.standing
    intro start p q tally subscription stream hserver hplace hreads
    refine hreads.redeliver hlast fun hlistening => ?_
    by_contra hfloor
    have hstart : start = s.history.length := by
      have := hplace.holds.le.trans hplace.holds.bound
      omega
    have hcursor := hplace.fromCursor
    rw [hstart, cursorAt_length] at hcursor
    refine hspares (by simp [hserver, hlistening]) ?_ hcursor.symm
    rw [hcursor, hlast]
    simp

theorem Connection.Inv.commit (h : s.Inv run params) {cursor : Cursor} {event : Event}
    (hfresh : s.history.any (·.cursor = cursor) = false) :
    Connection.Inv run params { s.onStream (.fanOut ⟨run, cursor, event⟩) with
      history := s.history ++ [⟨run, cursor, event⟩] } := by
  refine ⟨h.oneRun.commit hfresh, h.wireMinted, ?_, ?_⟩
  · intro task htask
    obtain ⟨task', htask', rfl⟩ := Option.map_eq_some_iff.mp htask
    exact h.serverMinted task' htask'
  · exact Standing.update (fun _ _ _ _ => Moves.append) (fun _ _ _ => Placed.append)
      (fun _ _ _ _ _ _ _ _ hreads => hreads.commit) h.standing

theorem Connection.Inv.hangUp (h : s.Inv run params) : (s.onStream .hangUp).Inv run params := by
  refine ⟨h.oneRun, h.wireMinted, ?_, ?_⟩
  · intro task htask
    obtain ⟨task', htask', rfl⟩ := Option.map_eq_some_iff.mp htask
    exact h.serverMinted task' htask'
  · exact Standing.update (fun _ _ _ _ => id) (fun _ _ _ => id)
      (fun _ _ _ _ _ _ _ _ hreads => hreads.hangUp) h.standing

/-- Notifications are added to the wire and the server's task goes on or ends, in a way that keeps
the path to the store. -/
theorem Standing.extend {server' : Option (Nat × WatchEventStream RunId Cursor Event)}
    (lines : List (Frame RunId Cursor Event)) (hlines : ∀ frame ∈ lines, frame.isResponse = false)
    (hfeeds : ∀ start p current wire, client.current = some current →
      Feeds history start current p server wire →
      Feeds history start current p server' (wire ++ lines))
    (h : Standing history params server wire client) :
    Standing history params server' (wire ++ lines) client := by
  have hquiet : ∀ wire : List (Frame RunId Cursor Event),
      (∀ frame ∈ wire, frame.isResponse = false) →
      ∀ frame ∈ wire ++ lines, frame.isResponse = false := by
    intro wire hwire frame hframe
    exact (List.mem_append.mp hframe).elim (hwire frame) (hlines frame)
  cases client with
  | idle => exact hquiet wire h
  | failed tally => exact h
  | streaming stream =>
    obtain ⟨hwire, start, p, hplace, m, hpath, hfed⟩ := h
    exact ⟨hquiet wire hwire, start, p, hplace, m, hpath,
      fun hregistered => hfeeds start m _ wire rfl (hfed hregistered)⟩
  | opening runId tally awaited =>
    cases awaited with
    | none => exact ⟨hquiet wire h.1, h.2⟩
    | some awaited =>
      obtain ⟨start, p, hplace, front, runId', rest, hwire, hfront, hrest, hfed⟩ := h
      refine ⟨start, p, hplace, front, runId', rest ++ lines, ?_, hfront, hquiet rest hrest,
        hfeeds start p _ rest rfl hfed⟩
      rw [hwire, List.append_assoc, List.cons_append]

theorem Standing.stop (h : Standing history params server wire client) :
    Standing history params none wire client := by
  have := h.extend [] (fun _ hc => nomatch hc) fun _ _ _ wire _ hfed => by
    rw [List.append_nil]
    exact hfed.stop
  rwa [List.append_nil] at this

theorem Connection.Inv.stray (h : s.Inv run params) {subscription : Nat}
    {item : WatchStreamItem RunId Cursor Event} (hminted : subscription < s.minted)
    (hother : s.client.current ≠ some subscription) :
    Connection.Inv run params { s with
      wire := s.wire ++ [.notification subscription item] } := by
  refine ⟨h.oneRun, ?_, h.serverMinted, h.standing.extend _ ?_ ?_⟩
  · intro frame hframe
    rcases List.mem_append.mp hframe with hframe | hframe
    · exact h.wireMinted frame hframe
    · rw [List.mem_singleton] at hframe
      rw [hframe]
      exact hminted
  · simp [Frame.isResponse]
  · intro start p current wire hcurrent hfed
    exact hfed.stray fun heq => hother (heq ▸ hcurrent)

theorem Connection.Inv.serve (h : s.Inv run params) {subscription : Nat}
    {stream : WatchEventStream RunId Cursor Event}
    (hserver : s.server = some (subscription, stream)) (answer : Option Nat) :
    (s.afterTurn subscription (stream.turn s.history answer)).Inv run params := by
  have hminted := h.serverMinted _ hserver
  have hstanding := h.standing
  rw [hserver] at hstanding
  obtain ⟨outcome, stream', hturn⟩ : ∃ outcome stream',
      stream.turn s.history answer = (outcome, stream') := ⟨_, _, rfl⟩
  have hserve : ∀ start p current wire,
      Feeds s.history start current p (some (subscription, stream)) wire → _ :=
    fun _ _ _ _ hfed => hfed.serve h.oneRun.unique hturn
  have hsilent : (∀ item, outcome ≠ .yields item) → Connection.Inv run params
      { s with server := some (subscription, stream') } := by
    intro hquiet
    refine ⟨h.oneRun, h.wireMinted, fun task htask => ?_, ?_⟩
    · cases htask
      exact hminted
    · have := hstanding.extend [] (fun _ hc => nomatch hc)
        fun start p current wire _ hfed => by
          rw [List.append_nil]
          exact (hserve start p current wire hfed).2 hquiet
      rwa [List.append_nil] at this
  rw [hturn]
  cases outcome with
  | yields item =>
    refine ⟨h.oneRun, ?_, fun task htask => ?_, hstanding.extend _ ?_ ?_⟩
    · intro frame hframe
      rcases List.mem_append.mp hframe with hframe | hframe
      · exact h.wireMinted frame hframe
      · rw [List.mem_singleton] at hframe
        rw [hframe]
        exact hminted
    · cases htask
      exact hminted
    · simp [Frame.isResponse]
    · intro start p current wire _ hfed
      exact (hserve start p current wire hfed).1 item rfl
  | looping => exact hsilent fun _ hc => nomatch hc
  | waiting => exact hsilent fun _ hc => nomatch hc
  | ended => exact ⟨h.oneRun, h.wireMinted, (fun _ hc => nomatch hc), h.standing.stop⟩

/-- The server takes up a request: its stream starts where the client stands. -/
theorem Connection.Inv.accept (h : s.Inv run params) {runId : Option RunId}
    {tally : Tally RunId Cursor Event} (hclient : s.client = .opening runId tally none)
    {parked : Bool} {capacity : Nat} {resolved : ResolvedSubscription RunId Cursor Event}
    (hresolved : subscribe run s.history ⟨runId, tally.lastDelivered⟩ parked capacity =
      some resolved) :
    Connection.Inv run params
      { s with
        minted := s.minted + 1
        server := some (s.minted, .new resolved)
        wire := s.wire ++ [.response s.minted resolved.runId]
        client := .opening runId tally (some s.minted) } := by
  have hstanding := h.standing
  rw [hclient] at hstanding
  obtain ⟨hwire, htally⟩ := hstanding
  obtain ⟨start, p, hplace⟩ : ∃ start p, Placed s.history params start p tally := by
    rcases htally with rfl | hplace
    · obtain ⟨start, hstart, hcursor⟩ := subscribe_position hresolved
      exact ⟨start, start, hcursor, .initial hstart hcursor⟩
    · exact hplace
  refine ⟨h.oneRun, ?_, ?_, start, p, hplace, s.wire, resolved.runId, [], rfl, ?_, ?_, ?_⟩
  · intro frame hframe
    rcases List.mem_append.mp hframe with hframe | hframe
    · exact Nat.lt_succ_of_lt (h.wireMinted frame hframe)
    · rw [List.mem_singleton] at hframe
      rw [hframe]
      exact Nat.lt_succ_self _
  · intro task htask
    cases htask
    exact Nat.lt_succ_self _
  · intro frame hframe
    exact ⟨hwire frame hframe, Nat.ne_of_lt (h.wireMinted frame hframe)⟩
  · exact fun _ hc => nomatch hc
  · refine ⟨p, .nil p, fun task htask => ?_⟩
    cases htask
    exact ⟨rfl, .new hresolved hplace.holds.lastDelivered hplace.holds.bound⟩

/-- The pump forwards a notification of the client's subscription. -/
theorem forwardNotification_spec (queue : BoundedQueue (WatchStreamItem RunId Cursor Event))
    (item : WatchStreamItem RunId Cursor Event) :
    ((forwardNotification queue item).items = queue.items ++ [item] ∧ queue.registered = true) ∨
      ((forwardNotification queue item).items = queue.items ∧
        (forwardNotification queue item).registered = false) := by
  unfold forwardNotification
  rcases queue.offer_cases item with ⟨haccepts, heq⟩ | ⟨haccepts, hitems, hdropped⟩
  · refine .inl ⟨?_, BoundedQueue.registered_of_accepts haccepts⟩
    rw [heq]
    split <;> rfl
  · refine .inr ?_
    rw [haccepts, Bool.false_and, if_neg Bool.false_ne_true]
    exact ⟨hitems, hdropped⟩

theorem Standing.pump {frame : Frame RunId Cursor Event} {rest : List (Frame RunId Cursor Event)}
    (hroute : routePumpedMessage backpressured queueCapacity client frame = some client')
    (h : Standing history params server (frame :: rest) client) :
    Standing history params server rest client' := by
  have htail : (∀ other ∈ frame :: rest, other.isResponse = false) →
      ∀ other ∈ rest, other.isResponse = false :=
    fun hwire other hother => hwire other (List.mem_cons_of_mem _ hother)
  cases client with
  | idle =>
    have heq : client' = .idle := by cases frame <;> exact (Option.some.inj hroute).symm
    rw [heq]
    exact htail h
  | failed tally =>
    have heq : client' = .failed tally := by cases frame <;> exact (Option.some.inj hroute).symm
    rw [heq]
    exact h
  | opening runId tally awaited =>
    cases awaited with
    | none =>
      have heq : client' = .opening runId tally none := by
        cases frame <;> exact (Option.some.inj hroute).symm
      rw [heq]
      exact ⟨htail h.1, h.2⟩
    | some awaited =>
      obtain ⟨start, p, hplace, front, runId', after, hwire, hfront, hafter, hfed⟩ := h
      cases front with
      | nil =>
        obtain ⟨rfl, rfl⟩ := List.cons.inj hwire
        simp only [routePumpedMessage, if_pos, Option.some.injEq] at hroute
        rw [← hroute]
        exact ⟨hafter, start, p, hplace, p, .nil p, fun _ => hfed⟩
      | cons first front =>
        obtain ⟨rfl, rfl⟩ := List.cons.inj hwire
        obtain ⟨hnotification, hother⟩ := hfront _ List.mem_cons_self
        have heq : client' = .opening runId tally (some awaited) := by
          cases frame with
          | response subscription runId => exact nomatch hnotification
          | notification subscription item => exact (Option.some.inj hroute).symm
        rw [heq]
        exact ⟨start, p, hplace, front, runId', after, rfl,
          fun other hother => hfront other (List.mem_cons_of_mem _ hother), hafter, hfed⟩
  | streaming stream =>
    obtain ⟨hwire, start, p, hplace, m, hpath, hfed⟩ := h
    cases frame with
    | response subscription runId => exact nomatch hwire _ List.mem_cons_self
    | notification subscription item =>
      simp only [routePumpedMessage] at hroute
      split at hroute
      case isFalse hother =>
        cases hroute
        refine ⟨htail hwire, start, p, hplace, m, hpath, fun hregistered => ?_⟩
        obtain ⟨q, hsent, hserver⟩ := hfed hregistered
        rw [sentTo_other (Ne.symm hother)] at hsent
        exact ⟨q, hsent, hserver⟩
      case isTrue hsame =>
        subst hsame
        split at hroute
        case isTrue => cases hroute
        case isFalse =>
          cases hroute
          rcases forwardNotification_spec stream.receiver item with
            ⟨hitems, hregistered⟩ | ⟨hitems, hdropped⟩
          · obtain ⟨q, hsent, hserver⟩ := hfed hregistered
            rw [sentTo_self] at hsent
            obtain ⟨m', hmove, hsent⟩ := Path.cons_inv hsent
            refine ⟨htail hwire, start, p, hplace, m', ?_, fun _ => ⟨q, hsent, hserver⟩⟩
            rw [hitems]
            exact hpath.concat hmove
          · refine ⟨htail hwire, start, p, hplace, m, ?_, fun hc => ?_⟩
            · rw [hitems]
              exact hpath
            · rw [hdropped] at hc
              cases hc

/-- The client reads the next line of its queue. -/
theorem Standing.next {stream : WatchSubscriptionEventStream RunId Cursor Event}
    (hrun : OneRun run history) (h : Standing history params server wire (.streaming stream)) :
    Standing history params server wire (.streaming stream.tryNext) := by
  unfold WatchSubscriptionEventStream.tryNext
  split
  case isTrue => exact h
  case isFalse =>
    obtain ⟨hwire, start, p, hplace, m, hpath, hfed⟩ := h
    split
    next item rest hitems =>
      rw [hitems] at hpath
      obtain ⟨p', hmove, hrest⟩ := Path.cons_inv hpath
      have hplace' : Placed history params start p' (stream.tally.take item) :=
        ⟨hplace.fromCursor, hplace.holds.take hrun hmove⟩
      cases item with
      | record record => exact ⟨hwire, start, p', hplace', m, hrest, hfed⟩
      | closed reason cursor => exact ⟨hwire, start, p', hplace', m, hrest, hfed⟩
    next hitems =>
      split
      case isTrue => exact ⟨hwire, start, p, hplace, m, hpath, hfed⟩
      case isFalse => exact ⟨hwire, start, p, hplace, m, hpath, hfed⟩

theorem Standing.disconnect (h : Standing history params server wire client) :
    Standing history params none [] client.hangUp := by
  have hempty : ∀ frame ∈ ([] : List (Frame RunId Cursor Event)), frame.isResponse = false :=
    fun _ hc => nomatch hc
  cases client with
  | idle => exact hempty
  | failed tally => exact h
  | opening runId tally awaited =>
    cases awaited with
    | none => exact h.2
    | some awaited =>
      obtain ⟨start, p, hplace, -⟩ := h
      exact .inr ⟨start, p, hplace⟩
  | streaming stream =>
    obtain ⟨-, start, p, hplace, m, hpath, -⟩ := h
    exact ⟨hempty, start, p, hplace, m, hpath, fun hc => nomatch hc⟩

/-- **Steps keep the invariant**, as long as the event at the initial cursor is not redelivered. -/
theorem Connection.Inv.step {e : ConnectionEvent RunId Cursor Event}
    (hspares : SparesInitialWire params e s)
    (hstep : connectionStep run params backpressured queueCapacity e s = some t)
    (h : s.Inv run params) : t.Inv run params := by
  cases e with
  | commit cursor event =>
    simp only [connectionStep] at hstep
    split at hstep
    case isTrue => cases hstep
    case isFalse hfresh =>
      cases hstep
      exact h.commit (Bool.eq_false_iff.mpr hfresh)
  | redeliver =>
    simp only [connectionStep] at hstep
    split at hstep
    next => cases hstep
    next record hlast =>
      cases hstep
      exact h.redeliver hspares hlast
  | hangUp =>
    cases hstep
    exact h.hangUp
  | watch =>
    simp only [connectionStep] at hstep
    split at hstep
    next hclient =>
      cases hstep
      have hstanding := h.standing
      rw [hclient] at hstanding
      exact ⟨h.oneRun, h.wireMinted, h.serverMinted, hstanding, .inl rfl⟩
    next => cases hstep
  | reconnect =>
    simp only [connectionStep] at hstep
    split at hstep
    next stream hclient =>
      cases hstep
      have hstanding := h.standing
      rw [hclient] at hstanding
      obtain ⟨hwire, start, p, hplace, -⟩ := hstanding
      exact ⟨h.oneRun, h.wireMinted, (fun _ hc => nomatch hc), hwire, .inr ⟨start, p, hplace⟩⟩
    next => cases hstep
  | accept parked capacity =>
    simp only [connectionStep] at hstep
    split at hstep
    next runId tally hclient =>
      obtain ⟨resolved, hresolved, rfl⟩ := Option.map_eq_some_iff.mp hstep
      exact h.accept hclient hresolved
    next => cases hstep
  | serve answer =>
    obtain ⟨⟨subscription, stream⟩, hserver, rfl⟩ := Option.map_eq_some_iff.mp hstep
    exact h.serve hserver answer
  | stop =>
    cases hstep
    exact ⟨h.oneRun, h.wireMinted, (fun _ hc => nomatch hc), h.standing.stop⟩
  | stray subscription item =>
    simp only [connectionStep] at hstep
    split at hstep
    case isTrue hguard =>
      cases hstep
      exact h.stray hguard.1 hguard.2
    case isFalse => cases hstep
  | pump =>
    simp only [connectionStep] at hstep
    split at hstep
    next => cases hstep
    next frame rest hwire =>
      obtain ⟨client', hroute, rfl⟩ := Option.map_eq_some_iff.mp hstep
      have hminted := h.wireMinted
      have hstanding := h.standing
      rw [hwire] at hminted hstanding
      exact ⟨h.oneRun, fun other hother => hminted other (List.mem_cons_of_mem _ hother),
        h.serverMinted, hstanding.pump hroute⟩
  | disconnect =>
    cases hstep
    exact ⟨h.oneRun, (fun _ hc => nomatch hc), (fun _ hc => nomatch hc), h.standing.disconnect⟩
  | next =>
    simp only [connectionStep] at hstep
    split at hstep
    next stream hclient =>
      cases hstep
      have hstanding := h.standing
      rw [hclient] at hstanding
      exact ⟨h.oneRun, h.wireMinted, h.serverMinted, hstanding.next h.oneRun⟩
    next => cases hstep

end Steps

/-- Before any event, and before the client watches. -/
def Connection.initial : Connection RunId Cursor Event := ⟨[], 0, none, [], .idle⟩

theorem Connection.inv_initial : (initial : Connection RunId Cursor Event).Inv run params :=
  ⟨⟨List.nodup_nil, fun _ h => nomatch h⟩, (fun _ h => nomatch h), (fun _ h => nomatch h),
    fun _ h => nomatch h⟩

theorem Connection.Inv.handedOver (h : s.Inv run params) :
    HandedOver s.history params.fromCursor s.client.handed := by
  have hstanding := h.standing
  have hplaced : ∀ {start p} {tally : Tally RunId Cursor Event},
      Placed s.history params start p tally →
      HandedOver s.history params.fromCursor tally.handed := by
    intro start p tally hplace
    rw [hplace.fromCursor]
    exact hplace.holds.handedOver h.oneRun
  have hkept : ∀ {tally : Tally RunId Cursor Event},
      (tally = freshTally params ∨ ∃ start p, Placed s.history params start p tally) →
      HandedOver s.history params.fromCursor tally.handed := by
    rintro tally (rfl | ⟨start, p, hplace⟩)
    · exact .nil _ _
    · exact hplaced hplace
  cases hclient : s.client with
  | idle => exact .nil _ _
  | failed tally =>
    rw [hclient] at hstanding
    exact hkept hstanding
  | streaming stream =>
    rw [hclient] at hstanding
    obtain ⟨-, start, p, hplace, -⟩ := hstanding
    exact hplaced hplace
  | opening runId tally awaited =>
    rw [hclient] at hstanding
    cases awaited with
    | none => exact hkept hstanding.2
    | some awaited =>
      obtain ⟨start, p, hplace, -⟩ := hstanding
      exact hplaced hplace

/-- The client of a connection hands over every event once, in every run. -/
theorem connection_handedOver {events : List (ConnectionEvent RunId Cursor Event)}
    (hrun : Machine.run (connectionStep run params backpressured queueCapacity) events .initial =
      some s)
    (hspares : Along (connectionStep run params backpressured queueCapacity)
      (SparesInitialWire params) events .initial) :
    HandedOver s.history params.fromCursor s.client.handed :=
  (run_invariant_along (fun _ _ _ hallowed hstep h => Connection.Inv.step hallowed hstep h) hrun
    hspares Connection.inv_initial).handedOver

/-! ## Exactly-once delivery -/

/-- **Every event once**: in every run in which the event at the initial cursor is not redelivered
to the live queue, what either client has handed over, with all its reconnects, is the beginning of
what was committed after that cursor. -/
theorem watch_exactly_once (run : RunId) (params : WatchParams RunId Cursor) :
    (∀ (events : List (InProcessEvent Cursor Event)) (s : InProcess RunId Cursor Event),
      Machine.run (inProcessStep run params) events .initial = some s →
      Along (inProcessStep run params) (SparesInitial params) events .initial →
      HandedOver s.history params.fromCursor s.handed) ∧
    (∀ (backpressured : Bool) (queueCapacity : Nat)
      (events : List (ConnectionEvent RunId Cursor Event)) (s : Connection RunId Cursor Event),
      Machine.run (connectionStep run params backpressured queueCapacity) events .initial = some s →
      Along (connectionStep run params backpressured queueCapacity) (SparesInitialWire params)
        events .initial →
      HandedOver s.history params.fromCursor s.client.handed) :=
  ⟨fun _ _ => inProcess_handedOver, fun _ _ _ _ => connection_handedOver⟩

end

namespace Sample

/-- A run with events `1` to `4`, watched after event `1`. -/
def params : WatchParams Nat Nat := ⟨none, some 1⟩

def record (cursor : Nat) : PublicEventRecord Nat Nat Nat := ⟨0, cursor, cursor⟩

/-- A live queue of one event overflows while it holds event `3`; the client reconnects for event
`4`. -/
def overflowEvents : List (InProcessEvent Nat Nat) :=
  [.commit 1 1, .commit 2 2, .watch false 1, .redeliver, .next (some 0), .next none, .next none,
    .commit 3 3, .commit 4 4, .next none, .next none, .reconnect false 1, .next (some 0),
    .next none]

/-- The queue of the pump overflows with event `2` in it; the client reconnects for the others. -/
def pumpEvents : List (ConnectionEvent Nat Nat Nat) :=
  [.commit 1 1, .commit 2 2, .watch, .accept false 8, .pump, .redeliver, .commit 3 3,
    .serve (some 0), .serve none, .serve none, .pump, .pump, .next, .next, .reconnect,
    .stray 0 (.record (record 3)), .accept false 8, .pump, .pump, .serve (some 0), .serve none,
    .pump, .next]

/-- The event at the cursor the client starts from is redelivered. -/
def boundaryEvents : List (InProcessEvent Nat Nat) :=
  [.commit 1 1, .watch false 1, .redeliver, .next none]

def boundaryPumpEvents : List (ConnectionEvent Nat Nat Nat) :=
  [.commit 1 1, .watch, .accept false 8, .pump, .redeliver, .serve none, .pump, .next]

/-- No event is committed after the only one. -/
theorem not_handedOver_boundary : ¬ HandedOver [record 1] (some 1) [record 1] := by
  intro h
  exact absurd h.inOrder (by decide)

end Sample

open Watch.Sample in
/-- The client starts after event `1` and is handed event `1`. -/
theorem watch_boundary_redelivered :
    (∃ s, Machine.run (inProcessStep 0 params) boundaryEvents .initial = some s ∧
      ¬ HandedOver s.history params.fromCursor s.handed) ∧
    (∃ s, Machine.run (connectionStep 0 params false 8) boundaryPumpEvents .initial = some s ∧
      ¬ HandedOver s.history params.fromCursor s.client.handed) := by
  have hrun : (Machine.run (inProcessStep 0 params) boundaryEvents .initial).map
      (fun s => (s.history, s.handed)) = some ([record 1], [record 1]) := by decide
  have hrunWire : (Machine.run (connectionStep 0 params false 8) boundaryPumpEvents .initial).map
      (fun s => (s.history, s.client.handed)) = some ([record 1], [record 1]) := by decide
  obtain ⟨s, hs, hhanded⟩ := Option.map_eq_some_iff.mp hrun
  obtain ⟨t, ht, hhandedWire⟩ := Option.map_eq_some_iff.mp hrunWire
  obtain ⟨hhistory, hhanded⟩ := Prod.mk.inj hhanded
  obtain ⟨hhistoryWire, hhandedWire⟩ := Prod.mk.inj hhandedWire
  refine ⟨⟨s, hs, ?_⟩, ⟨t, ht, ?_⟩⟩
  · rw [hhistory, hhanded]
    exact not_handedOver_boundary
  · rw [hhistoryWire, hhandedWire]
    exact not_handedOver_boundary

open Watch.Sample in
/-- Overflows, redeliveries and reconnects: every event after the first is handed over once. -/
theorem watch_exactly_once_overflow :
    (∃ s, Machine.run (inProcessStep 0 params) overflowEvents .initial = some s ∧
      s.handed = [record 2, record 3, record 4] ∧
      HandedOver s.history params.fromCursor s.handed) ∧
    (∃ s, Machine.run (connectionStep 0 params false 1) pumpEvents .initial = some s ∧
      s.client.handed = [record 2, record 3] ∧
      HandedOver s.history params.fromCursor s.client.handed) := by
  have hspares : Along (inProcessStep 0 params) (SparesInitial params) overflowEvents .initial := by
    decide
  have hsparesWire : Along (connectionStep 0 params false 1) (SparesInitialWire params) pumpEvents
      .initial := by decide
  have hrun : (Machine.run (inProcessStep 0 params) overflowEvents .initial).map (·.handed) =
      some [record 2, record 3, record 4] := by decide
  have hrunWire : (Machine.run (connectionStep 0 params false 1) pumpEvents .initial).map
      (·.client.handed) = some [record 2, record 3] := by decide
  obtain ⟨s, hs, hhanded⟩ := Option.map_eq_some_iff.mp hrun
  obtain ⟨t, ht, hhandedWire⟩ := Option.map_eq_some_iff.mp hrunWire
  exact ⟨⟨s, hs, hhanded, (watch_exactly_once 0 params).1 overflowEvents s hs hspares⟩,
    ⟨t, ht, hhandedWire, (watch_exactly_once 0 params).2 false 1 pumpEvents t ht hsparesWire⟩⟩

end Zeroshot.Watch
