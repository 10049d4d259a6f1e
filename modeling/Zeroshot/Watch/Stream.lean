import Mathlib.Data.List.Basic
import Mathlib.Data.List.Nodup
import Zeroshot.Lib.Path

set_option autoImplicit false

/-!
# The watch stream of one subscription

`WatchEventStream` replays the retained events of a run in pages, up to the tail captured when the
subscription was made, and then forwards the live queue that was registered at that moment. The
store is known by its port contract only: `subscribe` captures the tail and registers the queue at
once, `replay_page` answers with some of the next events, and the last committed event may be
offered to the live queue again.

The invariant speaks of positions in the committed history: every stage of the pipeline holds a path
of `Moves` from the position of its reader to the position of its writer.
-/

namespace Zeroshot.Watch

/-! ## Records and queues -/

/-- A durable public event together with the run it belongs to. -/
structure PublicEventRecord (RunId Cursor Event : Type) where
  runId : RunId
  cursor : Cursor
  event : Event
  deriving DecidableEq, Repr

structure WatchParams (RunId Cursor : Type) where
  runId : Option RunId
  fromCursor : Option Cursor
  deriving DecidableEq, Repr

inductive SubscriptionCloseReason
  | done
  | slowConsumer
  | sourceUnavailable
  deriving DecidableEq, Repr

/-- A bounded channel with its overflow flag. `registered` says that the sender is still held. -/
structure BoundedQueue (α : Type) where
  items : List α
  capacity : Nat
  registered : Bool
  overflowed : Bool
  deriving DecidableEq, Repr

namespace BoundedQueue

variable {α : Type}

def new (capacity : Nat) : BoundedQueue α := ⟨[], capacity, true, false⟩

/-- Whether `try_send` succeeds. -/
def accepts (queue : BoundedQueue α) : Bool :=
  queue.registered && decide (queue.items.length < queue.capacity)

/-- `try_send`: a full queue is flagged and its sender dropped. -/
def offer (queue : BoundedQueue α) (item : α) : BoundedQueue α :=
  if queue.registered then
    if queue.items.length < queue.capacity then { queue with items := queue.items ++ [item] }
    else { queue with registered := false, overflowed := true }
  else queue

/-- The sender is dropped without an overflow. -/
def hangUp (queue : BoundedQueue α) : BoundedQueue α := { queue with registered := false }

theorem offer_cases (queue : BoundedQueue α) (item : α) :
    (queue.accepts = true ∧ queue.offer item = { queue with items := queue.items ++ [item] }) ∨
      (queue.accepts = false ∧ (queue.offer item).items = queue.items ∧
        (queue.offer item).registered = false) := by
  unfold offer accepts
  by_cases hregistered : queue.registered = true
  · by_cases hroom : queue.items.length < queue.capacity <;> simp [hregistered, hroom]
  · simp [hregistered]

theorem registered_of_accepts {queue : BoundedQueue α} (h : queue.accepts = true) :
    queue.registered = true := by
  unfold accepts at h
  simp_all

end BoundedQueue

/-! ## The store's contract -/

section Store

variable {RunId Cursor Event : Type} [DecidableEq RunId] [DecidableEq Cursor]

/-- The committed events strictly after a cursor, or all of them. -/
def eventsAfter (history : List (PublicEventRecord RunId Cursor Event)) :
    Option Cursor → List (PublicEventRecord RunId Cursor Event)
  | none => history
  | some cursor => (history.dropWhile fun record => record.cursor ≠ cursor).tail

/-- Up to and including the event a cursor names. -/
def eventsThrough (through : Cursor) :
    List (PublicEventRecord RunId Cursor Event) → List (PublicEventRecord RunId Cursor Event)
  | [] => []
  | record :: rest =>
    if record.cursor = through then [record] else record :: eventsThrough through rest

/-- Bounded chunk size used when paging retained replay history. -/
def replayPageSize : Nat := 256

/-- `replay_page`: the store chooses how many of the remaining events it returns, at least one and
at most the limit. -/
def replayPage (history : List (PublicEventRecord RunId Cursor Event)) (after : Option Cursor)
    (through : Cursor) (count : Nat) : List (PublicEventRecord RunId Cursor Event) :=
  (eventsThrough through (eventsAfter history after)).take (min (count + 1) replayPageSize)

/-- `ResolvedSubscription`, without the tail it echoes to the caller. -/
structure ResolvedSubscription (RunId Cursor Event : Type) where
  runId : Option RunId
  resumeAfter : Option Cursor
  replayThrough : Option Cursor
  receiver : BoundedQueue (PublicEventRecord RunId Cursor Event)

/-- `subscribe` on the store of one run. It refuses another run and a cursor that names no event.
A subscription that names no run may be parked while the run has no event. -/
def subscribe (run : RunId) (history : List (PublicEventRecord RunId Cursor Event))
    (params : WatchParams RunId Cursor) (parked : Bool) (capacity : Nat) :
    Option (ResolvedSubscription RunId Cursor Event) :=
  if params.runId.all (· = run) &&
      params.fromCursor.all (fun cursor => history.any (·.cursor = cursor)) &&
      (!parked || history.isEmpty && params.runId.isNone) then
    some
      { runId := if parked then none else some run
        resumeAfter := params.fromCursor
        replayThrough := history.getLast?.map (·.cursor)
        receiver := .new capacity }
  else none

end Store

/-! ## The stream -/

section Stream

variable (RunId Cursor Event : Type)

inductive WatchStreamItem
  | record (record : PublicEventRecord RunId Cursor Event)
  | closed (reason : SubscriptionCloseReason) (lastDeliveredCursor : Option Cursor)
  deriving DecidableEq, Repr

structure WatchEventStream where
  runId : Option RunId
  after : Option Cursor
  replayThrough : Option Cursor
  buffered : List (PublicEventRecord RunId Cursor Event)
  receiver : Option (BoundedQueue (PublicEventRecord RunId Cursor Event))
  cancelled : Bool
  closed : Bool
  deriving DecidableEq, Repr

inductive ReplayAdvance
  | progressed
  | done
  | failed
  deriving DecidableEq, Repr

/-- What one pass through the loop of `next` comes to. -/
inductive Turn
  | looping
  | waiting
  | yields (item : WatchStreamItem RunId Cursor Event)
  | ended
  deriving DecidableEq, Repr

end Stream

namespace WatchEventStream

variable {RunId Cursor Event : Type}

def new (resolved : ResolvedSubscription RunId Cursor Event) :
    WatchEventStream RunId Cursor Event :=
  { runId := resolved.runId
    after := resolved.resumeAfter
    replayThrough := resolved.replayThrough
    buffered := []
    receiver := some resolved.receiver
    cancelled := false
    closed := false }

/-- The stream is permanently done and its receiver released. -/
def finish (stream : WatchEventStream RunId Cursor Event) : WatchEventStream RunId Cursor Event :=
  { stream with receiver := none, closed := true }

/-- A record leaves the stream. -/
def deliver (stream : WatchEventStream RunId Cursor Event)
    (record : PublicEventRecord RunId Cursor Event) : WatchEventStream RunId Cursor Event :=
  { stream with after := some record.cursor, runId := some (stream.runId.getD record.runId) }

/-- A nonempty page is buffered; an empty one ends the replay. -/
def takePage (stream : WatchEventStream RunId Cursor Event)
    (page : List (PublicEventRecord RunId Cursor Event)) :
    ReplayAdvance × WatchEventStream RunId Cursor Event :=
  if page.isEmpty then (.done, { stream with replayThrough := none })
  else (.progressed, { stream with buffered := stream.buffered ++ page })

theorem takePage_of_ne_nil (stream : WatchEventStream RunId Cursor Event)
    {page : List (PublicEventRecord RunId Cursor Event)} (h : page ≠ []) :
    stream.takePage page = (.progressed, { stream with buffered := stream.buffered ++ page }) := by
  unfold takePage
  rw [if_neg (by simpa using h)]

variable [DecidableEq Cursor]

/-- `advance_replay`, with the answer of `replay_page` to the request it makes. -/
def advanceReplay (history : List (PublicEventRecord RunId Cursor Event)) (answer : Option Nat)
    (stream : WatchEventStream RunId Cursor Event) :
    ReplayAdvance × WatchEventStream RunId Cursor Event :=
  match stream.runId, stream.replayThrough with
  | some _, some through =>
    if stream.after = some through then (.done, { stream with replayThrough := none })
    else
      match answer with
      | none => (.failed, stream.finish)
      | some count => stream.takePage (replayPage history stream.after through count)
  | _, _ => (.done, { stream with replayThrough := none })

theorem advanceReplay_some {history : List (PublicEventRecord RunId Cursor Event)}
    {answer : Option Nat} {stream : WatchEventStream RunId Cursor Event} {through : Cursor}
    (hrun : stream.runId.isSome) (hthrough : stream.replayThrough = some through) :
    stream.advanceReplay history answer =
      if stream.after = some through then (.done, { stream with replayThrough := none })
      else
        match answer with
        | none => (.failed, stream.finish)
        | some count => stream.takePage (replayPage history stream.after through count) := by
  obtain ⟨run, hrun⟩ := Option.isSome_iff_exists.mp hrun
  obtain ⟨runId, after, replayThrough, buffered, receiver, cancelled, closed⟩ := stream
  subst hrun hthrough
  rfl

theorem advanceReplay_none {history : List (PublicEventRecord RunId Cursor Event)}
    {answer : Option Nat} {stream : WatchEventStream RunId Cursor Event}
    (hthrough : stream.replayThrough = none) :
    stream.advanceReplay history answer = (.done, { stream with replayThrough := none }) := by
  obtain ⟨runId, after, replayThrough, buffered, receiver, cancelled, closed⟩ := stream
  subst hthrough
  cases runId <;> rfl

/-- `next_live`. -/
def nextLive (stream : WatchEventStream RunId Cursor Event) :
    Turn RunId Cursor Event × WatchEventStream RunId Cursor Event :=
  match stream.receiver with
  | none => (.ended, { stream with closed := true })
  | some queue =>
    match queue.items with
    | record :: items =>
      (.yields (.record record),
        { stream.deliver record with receiver := some { queue with items := items } })
    | [] =>
      if queue.registered then (.waiting, stream)
      else if queue.overflowed then
        (.yields (.closed .slowConsumer stream.after), stream.finish)
      else (.ended, stream.finish)

/-- One pass through the loop of `next`. -/
def turn (history : List (PublicEventRecord RunId Cursor Event)) (answer : Option Nat)
    (stream : WatchEventStream RunId Cursor Event) :
    Turn RunId Cursor Event × WatchEventStream RunId Cursor Event :=
  if stream.closed then (.ended, stream)
  else if stream.cancelled then (.ended, stream.finish)
  else
    match stream.buffered with
    | record :: rest =>
      (.yields (.record record), { stream.deliver record with buffered := rest })
    | [] =>
      match stream.advanceReplay history answer with
      | (.progressed, stream) => (.looping, stream)
      | (.done, stream) => stream.nextLive
      | (.failed, stream) => (.ended, stream)

/-- The store offers a record to the live queue of the subscription. -/
def fanOut (record : PublicEventRecord RunId Cursor Event)
    (stream : WatchEventStream RunId Cursor Event) : WatchEventStream RunId Cursor Event :=
  { stream with receiver := stream.receiver.map (·.offer record) }

def hangUp (stream : WatchEventStream RunId Cursor Event) : WatchEventStream RunId Cursor Event :=
  { stream with receiver := stream.receiver.map .hangUp }

def cancel (stream : WatchEventStream RunId Cursor Event) : WatchEventStream RunId Cursor Event :=
  { stream with cancelled := true }

/-- Whether a record offered to the live queue enters it. -/
def listening (stream : WatchEventStream RunId Cursor Event) : Bool :=
  stream.receiver.any (·.accepts)

end WatchEventStream

/-! ## Positions -/

section Positions

variable {RunId Cursor Event : Type} {history more : List (PublicEventRecord RunId Cursor Event)}
  {record : PublicEventRecord RunId Cursor Event} {floor p q t : Nat}

/-- The cursor of a reader that has the first `p` events. -/
def cursorAt (history : List (PublicEventRecord RunId Cursor Event)) : Nat → Option Cursor
  | 0 => none
  | p + 1 => history[p]?.map (·.cursor)

/-- Cursors name events uniquely. -/
def CursorsUnique (history : List (PublicEventRecord RunId Cursor Event)) : Prop :=
  (history.map (·.cursor)).Nodup

theorem getElem?_append_of_some (h : history[p]? = some record) :
    (history ++ more)[p]? = some record := by
  rw [List.getElem?_append_left (List.getElem?_eq_some_iff.mp h).1, h]

theorem cursorAt_append (h : p ≤ history.length) :
    cursorAt (history ++ more) p = cursorAt history p := by
  cases p with
  | zero => rfl
  | succ p =>
    show (history ++ more)[p]?.map _ = history[p]?.map _
    rw [List.getElem?_append_left h]

theorem cursorAt_length : cursorAt history history.length = history.getLast?.map (·.cursor) := by
  rcases List.eq_nil_or_concat history with rfl | ⟨front, last, rfl⟩
  · rfl
  · simp [cursorAt]

theorem cursorAt_eq_some {cursor : Cursor} (h : cursorAt history p = some cursor) :
    ∃ k record, p = k + 1 ∧ history[k]? = some record ∧ record.cursor = cursor := by
  cases p with
  | zero => cases h
  | succ k =>
    obtain ⟨record, hrecord, hcursor⟩ := Option.map_eq_some_iff.mp h
    exact ⟨k, record, rfl, hrecord, hcursor⟩

theorem CursorsUnique.position_eq (hunique : CursorsUnique history)
    {record' : PublicEventRecord RunId Cursor Event} (hp : history[p]? = some record)
    (hq : history[q]? = some record') (heq : record.cursor = record'.cursor) : p = q := by
  have hcursors : (history.map (·.cursor))[p]? = (history.map (·.cursor))[q]? := by
    rw [List.getElem?_map, List.getElem?_map, hp, hq]
    exact congrArg some heq
  have hlt : p < (history.map (·.cursor)).length := by
    rw [List.length_map]
    exact (List.getElem?_eq_some_iff.mp hp).1
  exact (List.getElem?_inj hlt hunique).mp hcursors

theorem CursorsUnique.cursorAt_inj (hunique : CursorsUnique history) (hp : p ≤ history.length)
    (hq : q ≤ history.length) (heq : cursorAt history p = cursorAt history q) : p = q := by
  cases p with
  | zero =>
    cases q with
    | zero => rfl
    | succ k => simp [cursorAt, List.getElem?_eq_getElem (show k < history.length by omega)] at heq
  | succ j =>
    have hj : j < history.length := hp
    have hcursor : cursorAt history (j + 1) = some history[j].cursor := by
      simp [cursorAt, hj]
    obtain ⟨k, record, rfl, hrecord, hname⟩ := cursorAt_eq_some (heq.symm.trans hcursor)
    rw [hunique.position_eq (List.getElem?_eq_getElem hj) hrecord hname.symm]

/-- How an item of a stream moves its reader: on to the next event, not at all for an event it
already has, which lies past the floor, and not at all when the stream is closed. -/
inductive Moves (history : List (PublicEventRecord RunId Cursor Event)) (floor : Nat) :
    Nat → WatchStreamItem RunId Cursor Event → Nat → Prop
  | next {p : Nat} {record : PublicEventRecord RunId Cursor Event} :
      history[p]? = some record → Moves history floor p (.record record) (p + 1)
  | again {p : Nat} {record : PublicEventRecord RunId Cursor Event} :
      floor ≤ p → history[p]? = some record →
        Moves history floor (p + 1) (.record record) (p + 1)
  | closed {p : Nat} {reason : SubscriptionCloseReason} {cursor : Option Cursor} :
      p ≤ history.length → cursor = cursorAt history p →
        Moves history floor p (.closed reason cursor) p

theorem Moves.le {item : WatchStreamItem RunId Cursor Event} (h : Moves history floor p item q) :
    p ≤ q := by
  cases h <;> omega

theorem Moves.append {item : WatchStreamItem RunId Cursor Event}
    (h : Moves history floor p item q) : Moves (history ++ more) floor p item q := by
  cases h with
  | next hrecord => exact .next (getElem?_append_of_some hrecord)
  | again hfloor hrecord => exact .again hfloor (getElem?_append_of_some hrecord)
  | closed hbound hcursor =>
    rw [← cursorAt_append hbound] at hcursor
    exact .closed (by simp; omega) hcursor

/-- The path that a queue of records makes. -/
def Carries (history : List (PublicEventRecord RunId Cursor Event)) (floor p : Nat)
    (records : List (PublicEventRecord RunId Cursor Event)) (q : Nat) : Prop :=
  Path (Moves history floor) p (records.map .record) q

theorem path_le {items : List (WatchStreamItem RunId Cursor Event)}
    (h : Path (Moves history floor) p items q) : p ≤ q := by
  induction h with
  | nil p => exact Nat.le_refl p
  | cons hmove _ ih => exact Nat.le_trans hmove.le ih

theorem path_append_history {items : List (WatchStreamItem RunId Cursor Event)}
    (h : Path (Moves history floor) p items q) : Path (Moves (history ++ more) floor) p items q :=
  h.mono fun _ _ _ => Moves.append

theorem Carries.of_infix {records : List (PublicEventRecord RunId Cursor Event)}
    (h : records <+: history.drop p) : Carries history floor p records (p + records.length) := by
  induction records generalizing p with
  | nil => exact .nil p
  | cons record records ih =>
    obtain ⟨rest, hrest⟩ := h
    have hhead : history[p]? = some record := by
      rw [← List.head?_drop, ← hrest]
      rfl
    have htail : records <+: history.drop (p + 1) := by
      rw [← List.tail_drop, ← hrest]
      exact ⟨rest, rfl⟩
    rw [List.length_cons, Nat.add_comm records.length, ← Nat.add_assoc]
    exact .cons (.next hhead) (ih htail)

end Positions

/-! ## Replay pages -/

section Pages

variable {RunId Cursor Event : Type} [DecidableEq Cursor]
  {history records : List (PublicEventRecord RunId Cursor Event)}
  {record : PublicEventRecord RunId Cursor Event} {p q t : Nat} {cursor : Cursor}

theorem dropWhile_cursor (hunique : CursorsUnique history) (hp : history[p]? = some record) :
    (history.dropWhile fun other => other.cursor ≠ record.cursor) = history.drop p := by
  induction history generalizing p with
  | nil => simp at hp
  | cons first history ih =>
    cases p with
    | zero =>
      simp only [List.getElem?_cons_zero, Option.some.injEq] at hp
      simp [hp]
    | succ p =>
      have hrest : history[p]? = some record := by simpa using hp
      have hunique' := List.nodup_cons.mp hunique
      have hne : first.cursor ≠ record.cursor := by
        intro heq
        exact hunique'.1 (List.mem_map.mpr ⟨record, List.mem_of_getElem? hrest, heq.symm⟩)
      rw [List.dropWhile_cons_of_pos (by simpa using hne), ih hunique'.2 hrest, List.drop_succ_cons]

theorem eventsAfter_cursorAt (hunique : CursorsUnique history) (hp : p ≤ history.length) :
    eventsAfter history (cursorAt history p) = history.drop p := by
  cases p with
  | zero => rfl
  | succ p =>
    have hlt : p < history.length := hp
    have hcursor : cursorAt history (p + 1) = some history[p].cursor := by simp [cursorAt, hlt]
    rw [hcursor, eventsAfter, dropWhile_cursor hunique (List.getElem?_eq_getElem hlt),
      List.tail_drop]

theorem eventsThrough_initial (through : Cursor) : eventsThrough through records <+: records := by
  induction records with
  | nil => exact List.prefix_rfl
  | cons record records ih =>
    unfold eventsThrough
    split
    · exact ⟨records, rfl⟩
    · exact (List.cons_prefix_cons).mpr ⟨rfl, ih⟩

theorem eventsThrough_length (h : records[p]? = some record) (hcursor : record.cursor = cursor) :
    (eventsThrough cursor records).length ≤ p + 1 := by
  induction records generalizing p with
  | nil => simp at h
  | cons first records ih =>
    unfold eventsThrough
    split
    · simp
    · cases p with
      | zero =>
        simp only [List.getElem?_cons_zero, Option.some.injEq] at h
        simp_all
      | succ p =>
        have := ih (by simpa using h)
        simp only [List.length_cons]
        omega

theorem eventsThrough_ne_nil (h : records ≠ []) (through : Cursor) :
    eventsThrough through records ≠ [] := by
  cases records with
  | nil => exact absurd rfl h
  | cons record records =>
    unfold eventsThrough
    split <;> exact List.cons_ne_nil _ _

/-- **Pages**: a page is a nonempty run of the events from the reader's position, none past the
captured tail. -/
theorem replayPage_spec (hunique : CursorsUnique history) (hqt : q < t) (ht : t ≤ history.length)
    (hcursor : cursorAt history t = some cursor) (count : Nat) :
    replayPage history (cursorAt history q) cursor count <+: history.drop q ∧
      replayPage history (cursorAt history q) cursor count ≠ [] ∧
      q + (replayPage history (cursorAt history q) cursor count).length ≤ t := by
  unfold replayPage
  rw [eventsAfter_cursorAt hunique (by omega)]
  have hne : history.drop q ≠ [] := by
    rw [ne_eq, List.drop_eq_nil_iff]
    omega
  refine ⟨(List.take_prefix _ _).trans (eventsThrough_initial cursor), ?_, ?_⟩
  · have := eventsThrough_ne_nil hne cursor
    simp only [ne_eq, List.take_eq_nil_iff, not_or]
    refine ⟨?_, this⟩
    unfold replayPageSize
    omega
  · obtain ⟨k, record, rfl, hrecord, hname⟩ := cursorAt_eq_some hcursor
    have hat : (history.drop q)[k - q]? = some record := by
      rw [List.getElem?_drop, Nat.add_sub_cancel' (by omega)]
      exact hrecord
    have := eventsThrough_length hat hname
    rw [List.length_take]
    omega

end Pages

/-! ## The invariant of a stream -/

section Invariant

variable {RunId Cursor Event : Type} {history more : List (PublicEventRecord RunId Cursor Event)}
  {record : PublicEventRecord RunId Cursor Event} {floor p q : Nat}
  {stream stream' : WatchEventStream RunId Cursor Event}

/-- The stream has given out the first `q` events. What is buffered leads towards the captured tail
`t`, and the live queue leads on from there, to the end of the history while it is registered. -/
structure Reads (history : List (PublicEventRecord RunId Cursor Event)) (floor q : Nat)
    (stream : WatchEventStream RunId Cursor Event) : Prop where
  after : stream.after = cursorAt history q
  stages : ∃ b t, Carries history floor q stream.buffered b ∧ b ≤ t ∧ t ≤ history.length ∧
    (stream.replayThrough = none → b = t) ∧
    (∀ through, stream.replayThrough = some through →
      cursorAt history t = some through ∧ stream.runId.isSome) ∧
    ∀ queue, stream.receiver = some queue → ∃ m, Carries history floor t queue.items m ∧
      m ≤ history.length ∧ (queue.registered = true → m = history.length)

theorem Reads.le_length (h : Reads history floor q stream) : q ≤ history.length := by
  obtain ⟨b, t, hbuffered, hbt, ht, -⟩ := h.stages
  have := path_le hbuffered
  omega

/-- A fresh subscription reads from its cursor. -/
theorem Reads.new [DecidableEq RunId] [DecidableEq Cursor] {run : RunId}
    {params : WatchParams RunId Cursor} {parked : Bool} {capacity : Nat}
    {resolved : ResolvedSubscription RunId Cursor Event}
    (h : subscribe run history params parked capacity = some resolved)
    (hq : params.fromCursor = cursorAt history q) (hbound : q ≤ history.length) :
    Reads history floor q (.new resolved) := by
  unfold subscribe at h
  split at h
  case isFalse => cases h
  case isTrue hguard =>
    simp only [Option.some.injEq] at h
    subst h
    refine ⟨hq, q, history.length, .nil q, hbound, Nat.le_refl _, ?_, ?_, ?_⟩
    · -- no tail was captured: the run has no event yet
      intro hnone
      have hnil : history = [] := by simpa [WatchEventStream.new] using hnone
      subst hnil
      simp at hbound
      simp [hbound]
    · intro through hthrough
      refine ⟨cursorAt_length.trans hthrough, ?_⟩
      cases parked with
      | false => simp [WatchEventStream.new]
      | true =>
        simp only [Bool.not_true, Bool.false_or, Bool.and_eq_true, List.isEmpty_iff] at hguard
        simp [WatchEventStream.new, hguard.2.1] at hthrough
    · intro queue hqueue
      cases hqueue
      exact ⟨history.length, .nil _, Nat.le_refl _, fun _ => rfl⟩

/-- What the outcome of a turn does to the position of the stream. -/
def Turn.Moves (history : List (PublicEventRecord RunId Cursor Event)) (floor q : Nat) :
    Turn RunId Cursor Event → Nat → Prop
  | .yields item, q' => Watch.Moves history floor q item q'
  | _, q' => q' = q

theorem Reads.finish (h : Reads history floor q stream) : Reads history floor q stream.finish := by
  obtain ⟨b, t, hbuffered, hbt, ht, hnone, hsome, -⟩ := h.stages
  exact ⟨h.after, b, t, hbuffered, hbt, ht, hnone, hsome, fun _ hqueue => nomatch hqueue⟩

/-- A record that leaves the stream moves it. -/
theorem Moves.cursor {p : Nat} (h : Moves history floor q (.record record) p) :
    some record.cursor = cursorAt history p := by
  cases h with
  | next hrecord => simp [cursorAt, hrecord]
  | again _ hrecord => simp [cursorAt, hrecord]

/-- A replay that has reached the tail goes on with the live queue from its own position. -/
theorem Reads.replayed (h : Reads history floor q stream) (hbuffered : stream.buffered = [])
    (htail : stream.replayThrough = none ∨ ∀ through, stream.replayThrough = some through →
      ∀ t, cursorAt history t = some through → t ≤ history.length → t = q) :
    Reads history floor q { stream with replayThrough := none } ∧
      ∀ queue, stream.receiver = some queue → ∃ m, Carries history floor q queue.items m ∧
        m ≤ history.length ∧ (queue.registered = true → m = history.length) := by
  obtain ⟨b, t, hcarries, hbt, ht, hnone, hsome, hqueue⟩ := h.stages
  rw [hbuffered] at hcarries
  have hqb : q = b := Path.nil_eq hcarries
  subst hqb
  have htq : t = q := by
    cases hthrough : stream.replayThrough with
    | none => exact (hnone hthrough).symm
    | some through =>
      rcases htail with htail | htail
      · rw [hthrough] at htail
        cases htail
      · exact htail through hthrough t (hsome through hthrough).1 ht
  subst htq
  refine ⟨⟨h.after, t, t, ?_, Nat.le_refl t, ht, fun _ => rfl, ?_, hqueue⟩, hqueue⟩
  · show Carries history floor t stream.buffered t
    rw [hbuffered]
    exact .nil t
  · intro _ hc
    cases hc

theorem Reads.nextLive (h : Reads history floor q stream) (hbuffered : stream.buffered = [])
    (hthrough : stream.replayThrough = none) {outcome : Turn RunId Cursor Event}
    (hturn : stream.nextLive = (outcome, stream')) :
    ∃ q', outcome.Moves history floor q q' ∧ Reads history floor q' stream' := by
  have hlive := (h.replayed hbuffered (.inl hthrough)).2
  unfold WatchEventStream.nextLive at hturn
  cases hreceiver : stream.receiver with
  | none =>
    simp only [hreceiver] at hturn
    cases hturn
    obtain ⟨b, t, hcarries, hbt, ht, hnone, hsome, -⟩ := h.stages
    exact ⟨q, rfl, h.after, b, t, hcarries, hbt, ht, hnone, hsome, fun _ hc => nomatch hc⟩
  | some queue =>
    obtain ⟨m, hcarries, hm, hregistered⟩ := hlive queue hreceiver
    rw [hreceiver] at hturn
    cases hitems : queue.items with
    | nil =>
      simp only [hitems] at hturn
      split at hturn
      · cases hturn
        exact ⟨q, rfl, h⟩
      · split at hturn
        · cases hturn
          exact ⟨q, .closed h.le_length h.after, h.finish⟩
        · cases hturn
          exact ⟨q, rfl, h.finish⟩
    | cons record items =>
      simp only [hitems, Prod.mk.injEq] at hturn
      obtain ⟨rfl, rfl⟩ := hturn
      rw [hitems] at hcarries
      obtain ⟨q', hmove, hrest⟩ := Path.cons_inv hcarries
      have hq' := path_le hrest
      refine ⟨q', hmove, Moves.cursor hmove, q', q', ?_, Nat.le_refl q', by omega, fun _ => rfl, ?_,
        ?_⟩
      · show Carries history floor q' stream.buffered q'
        rw [hbuffered]
        exact .nil q'
      · intro through hc
        have hc' : stream.replayThrough = some through := hc
        rw [hthrough] at hc'
        cases hc'
      · intro queue' hqueue'
        cases hqueue'
        exact ⟨m, hrest, hm, hregistered⟩

/-- A committed event is offered to the live queue. -/
theorem Reads.commit (h : Reads history floor q stream) :
    Reads (history ++ [record]) floor q (stream.fanOut record) := by
  have hq := h.le_length
  obtain ⟨b, t, hcarries, hbt, ht, hnone, hsome, hqueue⟩ := h.stages
  refine ⟨?_, b, t, path_append_history hcarries, hbt, by simp; omega, hnone, ?_, ?_⟩
  · rw [cursorAt_append hq]
    exact h.after
  · intro through hc
    rw [cursorAt_append ht]
    exact hsome through hc
  · intro queue hc
    obtain ⟨queue₀, hreceiver, rfl⟩ := Option.map_eq_some_iff.mp hc
    obtain ⟨m, hitems, hm, hregistered⟩ := hqueue queue₀ hreceiver
    rcases queue₀.offer_cases record with ⟨haccepts, heq⟩ | ⟨-, heq, hdropped⟩
    · have hlast : m = history.length := hregistered (BoundedQueue.registered_of_accepts haccepts)
      subst hlast
      rw [heq]
      refine ⟨history.length + 1, ?_, by simp, fun _ => by simp⟩
      unfold Carries
      rw [List.map_append]
      exact (path_append_history hitems).concat (.next (by simp))
    · refine ⟨m, ?_, by simp; omega, fun hc => by simp [hdropped] at hc⟩
      rw [heq]
      exact path_append_history hitems

/-- The last committed event is offered again, to a queue past the floor. -/
theorem Reads.redeliver (h : Reads history floor q stream) (hlast : history.getLast? = some record)
    (hfloor : stream.listening = true → floor < history.length) :
    Reads history floor q (stream.fanOut record) := by
  obtain ⟨b, t, hcarries, hbt, ht, hnone, hsome, hqueue⟩ := h.stages
  refine ⟨h.after, b, t, hcarries, hbt, ht, hnone, hsome, ?_⟩
  intro queue hc
  obtain ⟨queue₀, hreceiver, rfl⟩ := Option.map_eq_some_iff.mp hc
  obtain ⟨m, hitems, hm, hregistered⟩ := hqueue queue₀ hreceiver
  rcases queue₀.offer_cases record with ⟨haccepts, heq⟩ | ⟨-, heq, hdropped⟩
  · have hm : m = history.length := hregistered (BoundedQueue.registered_of_accepts haccepts)
    have hlistening : stream.listening = true := by
      simp [WatchEventStream.listening, hreceiver, haccepts]
    have hlt := hfloor hlistening
    obtain ⟨n, hn⟩ : ∃ n, history.length = n + 1 := ⟨history.length - 1, by omega⟩
    rw [heq, hn]
    refine ⟨n + 1, ?_, Nat.le_refl _, fun _ => rfl⟩
    unfold Carries
    rw [List.map_append]
    rw [hm, hn] at hitems
    refine Path.concat hitems (.again (by omega) ?_)
    rw [List.getLast?_eq_getElem?, hn] at hlast
    exact hlast
  · refine ⟨m, ?_, hm, fun hc => by simp [hdropped] at hc⟩
    rw [heq]
    exact hitems

theorem Reads.hangUp (h : Reads history floor q stream) : Reads history floor q stream.hangUp := by
  obtain ⟨b, t, hcarries, hbt, ht, hnone, hsome, hqueue⟩ := h.stages
  refine ⟨h.after, b, t, hcarries, hbt, ht, hnone, hsome, ?_⟩
  intro queue hc
  obtain ⟨queue₀, hreceiver, rfl⟩ := Option.map_eq_some_iff.mp hc
  obtain ⟨m, hitems, hm, -⟩ := hqueue queue₀ hreceiver
  exact ⟨m, hitems, hm, fun hc => nomatch hc⟩

theorem Reads.cancel (h : Reads history floor q stream) : Reads history floor q stream.cancel :=
  ⟨h.after, h.stages⟩

variable [DecidableEq Cursor]

theorem Reads.advanceReplay (hunique : CursorsUnique history) (h : Reads history floor q stream)
    (hbuffered : stream.buffered = []) {answer : Option Nat} {advance : ReplayAdvance}
    (hadvance : stream.advanceReplay history answer = (advance, stream')) :
    Reads history floor q stream' ∧
      (advance = .done → stream'.buffered = [] ∧ stream'.replayThrough = none) := by
  obtain ⟨b, t, hcarries, hbt, ht, hnone, hsome, hqueue⟩ := h.stages
  rw [hbuffered] at hcarries
  have hqb : q = b := Path.nil_eq hcarries
  subst hqb
  cases hthrough : stream.replayThrough with
  | none =>
    rw [WatchEventStream.advanceReplay_none hthrough] at hadvance
    cases hadvance
    exact ⟨(h.replayed hbuffered (.inl hthrough)).1, fun _ => ⟨hbuffered, rfl⟩⟩
  | some through =>
    obtain ⟨hcursor, hrun⟩ := hsome through hthrough
    rw [WatchEventStream.advanceReplay_some hrun hthrough] at hadvance
    by_cases hafter : stream.after = some through
    · rw [if_pos hafter] at hadvance
      cases hadvance
      refine ⟨(h.replayed hbuffered (.inr fun c hc t hct hle => ?_)).1, fun _ => ⟨hbuffered, rfl⟩⟩
      rw [h.after, ← hthrough, hc] at hafter
      exact hunique.cursorAt_inj hle h.le_length (hct.trans hafter.symm)
    · rw [if_neg hafter] at hadvance
      have hqt : q < t := by
        rcases Nat.lt_or_eq_of_le hbt with hlt | heq
        · exact hlt
        · rw [h.after, heq, hcursor] at hafter
          exact absurd rfl hafter
      cases answer with
      | none =>
        cases hadvance
        exact ⟨h.finish, fun hc => nomatch hc⟩
      | some count =>
        obtain ⟨hinitial, hne, hlength⟩ := replayPage_spec hunique hqt ht hcursor count
        rw [← h.after] at hinitial hne hlength
        have hpage := WatchEventStream.takePage_of_ne_nil stream hne
        cases hpage.symm.trans hadvance
        refine ⟨⟨h.after, _, t, ?_, hlength, ht, ?_, hsome, hqueue⟩, fun hc => nomatch hc⟩
        · show Carries history floor q (stream.buffered ++ _) _
          rw [hbuffered]
          exact Carries.of_infix hinitial
        · intro hc
          have hc' : stream.replayThrough = none := hc
          rw [hthrough] at hc'
          cases hc'

/-- **One turn**: what the stream yields moves its reader, and it reads on from there. -/
theorem Reads.turn (hunique : CursorsUnique history) (h : Reads history floor q stream)
    {answer : Option Nat} {outcome : Turn RunId Cursor Event}
    (hturn : stream.turn history answer = (outcome, stream')) :
    ∃ q', outcome.Moves history floor q q' ∧ Reads history floor q' stream' := by
  unfold WatchEventStream.turn at hturn
  split at hturn
  case isTrue =>
    cases hturn
    exact ⟨q, rfl, h⟩
  case isFalse =>
    split at hturn
    case isTrue =>
      cases hturn
      exact ⟨q, rfl, h.finish⟩
    case isFalse =>
      cases hbuffered : stream.buffered with
      | cons record rest =>
        simp only [hbuffered, Prod.mk.injEq] at hturn
        obtain ⟨rfl, rfl⟩ := hturn
        obtain ⟨b, t, hcarries, hbt, ht, hnone, hsome, hqueue⟩ := h.stages
        rw [hbuffered] at hcarries
        obtain ⟨q', hmove, hrest⟩ := Path.cons_inv hcarries
        exact ⟨q', hmove, Moves.cursor hmove, b, t, hrest, hbt, ht, hnone,
          fun through hc => ⟨(hsome through hc).1, rfl⟩, hqueue⟩
      | nil =>
        simp only [hbuffered] at hturn
        cases hadvance : stream.advanceReplay history answer with
        | mk advance next =>
          obtain ⟨hreads, hdone⟩ := h.advanceReplay hunique hbuffered hadvance
          rw [hadvance] at hturn
          cases advance with
          | progressed =>
            cases hturn
            exact ⟨q, rfl, hreads⟩
          | done =>
            obtain ⟨hempty, hthrough⟩ := hdone rfl
            exact hreads.nextLive hempty hthrough hturn
          | failed =>
            cases hturn
            exact ⟨q, rfl, hreads⟩

end Invariant

end Zeroshot.Watch
