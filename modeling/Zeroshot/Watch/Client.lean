import Mathlib.Data.List.Infix
import Zeroshot.Lib.Machine
import Zeroshot.Watch.Stream

set_option autoImplicit false
set_option linter.unusedSectionVars false

/-!
# Watching with reconnects, in one process

`ReconnectingEventStream` reads a `WatchEventStream`, drops the events whose `(runId, cursor)` it
has seen, and reconnects from the cursor of the last event it handed over. Its set of seen events
starts empty, also when it starts from a cursor; so the event at that cursor, when it is redelivered
before any other is committed, is handed over although the caller asked for what comes after it.

`Tally` is the common part of the two clients: what they have handed over is the history from the
starting position on.
-/

namespace Zeroshot.Watch

open Machine

section

variable {RunId Cursor Event : Type}

/-- `seen` and `last_delivered`, with the events handed to the caller. -/
structure Tally (RunId Cursor Event : Type) where
  seen : List (RunId × Cursor)
  lastDelivered : Option Cursor
  handed : List (PublicEventRecord RunId Cursor Event)

variable [DecidableEq RunId] [DecidableEq Cursor]

/-- `admit_event`: an event whose key was seen is dropped. -/
def admitEvent (tally : Tally RunId Cursor Event) (record : PublicEventRecord RunId Cursor Event) :
    Tally RunId Cursor Event :=
  if (record.runId, record.cursor) ∈ tally.seen then tally
  else
    { seen := (record.runId, record.cursor) :: tally.seen
      lastDelivered := some record.cursor
      handed := tally.handed ++ [record] }

/-- What a client does with an item: a close moves its cursor when it names one. -/
def Tally.take (tally : Tally RunId Cursor Event) :
    WatchStreamItem RunId Cursor Event → Tally RunId Cursor Event
  | .record record => admitEvent tally record
  | .closed _ cursor => { tally with lastDelivered := cursor.or tally.lastDelivered }

/-! ## What has been handed over -/

variable {history more : List (PublicEventRecord RunId Cursor Event)} {run : RunId}
  {start p q : Nat} {tally : Tally RunId Cursor Event}

/-- The events of one run, with cursors that name them uniquely. -/
structure OneRun (run : RunId) (history : List (PublicEventRecord RunId Cursor Event)) : Prop where
  unique : CursorsUnique history
  runs : ∀ record ∈ history, record.runId = run

/-- The client has the events from its starting position to position `p`, and nothing else. -/
structure Holds (history : List (PublicEventRecord RunId Cursor Event)) (start p : Nat)
    (tally : Tally RunId Cursor Event) : Prop where
  le : start ≤ p
  bound : p ≤ history.length
  handed : tally.handed = (history.take p).drop start
  seen : ∀ key, key ∈ tally.seen ↔ ∃ record ∈ tally.handed, (record.runId, record.cursor) = key
  lastDelivered : tally.lastDelivered = cursorAt history p

theorem Holds.append (h : Holds history start p tally) : Holds (history ++ more) start p tally := by
  refine ⟨h.le, by simp; exact Nat.le_add_right_of_le h.bound, ?_, h.seen, ?_⟩
  · rw [h.handed, List.take_append_of_le_length h.bound]
  · rw [h.lastDelivered, cursorAt_append h.bound]

theorem Holds.mem_handed (h : Holds history start p tally) {k : Nat}
    {record : PublicEventRecord RunId Cursor Event} (hrecord : history[k]? = some record)
    (hk : start ≤ k) (hkp : k < p) : record ∈ tally.handed := by
  rw [h.handed]
  refine List.mem_of_getElem? (i := k - start) ?_
  rw [List.getElem?_drop, Nat.add_sub_cancel' hk, List.getElem?_take_of_lt hkp, hrecord]

theorem Holds.position (h : Holds history start p tally)
    {record : PublicEventRecord RunId Cursor Event} (hrecord : record ∈ tally.handed) :
    ∃ k < p, history[k]? = some record := by
  rw [h.handed] at hrecord
  obtain ⟨k, hk⟩ := List.mem_iff_getElem?.mp (List.mem_of_mem_drop hrecord)
  obtain ⟨hlt, -⟩ := List.getElem?_eq_some_iff.mp hk
  rw [List.length_take] at hlt
  have hkp : k < p := by omega
  exact ⟨k, hkp, by rwa [List.getElem?_take_of_lt hkp] at hk⟩

/-- **One item**: a new event is handed over once, an event the client has is dropped, and a close
leaves the cursor where it is. -/
theorem Holds.take (hrun : OneRun run history) (h : Holds history start p tally)
    {item : WatchStreamItem RunId Cursor Event} (hmove : Moves history start p item q) :
    Holds history start q (tally.take item) := by
  cases hmove with
  | @next p record hrecord =>
    have hlt : p < history.length := (List.getElem?_eq_some_iff.mp hrecord).1
    have hfresh : (record.runId, record.cursor) ∉ tally.seen := by
      intro hseen
      obtain ⟨other, hother, hkey⟩ := (h.seen _).mp hseen
      obtain ⟨k, hk, hat⟩ := h.position hother
      have := hrun.unique.position_eq hat hrecord (Prod.mk.inj hkey).2
      omega
    have hle := h.le
    refine ⟨by omega, hlt, ?_, ?_, ?_⟩ <;> simp only [Tally.take, admitEvent, if_neg hfresh]
    · rw [h.handed, List.take_add_one, hrecord, List.drop_append_of_le_length]
      · rfl
      · rw [List.length_take]
        omega
    · intro key
      rw [List.mem_cons, h.seen]
      constructor
      · rintro (rfl | ⟨other, hother, hkey⟩)
        · exact ⟨record, by simp, rfl⟩
        · exact ⟨other, by simp [hother], hkey⟩
      · rintro ⟨other, hother, hkey⟩
        rcases List.mem_append.mp hother with hother | hother
        · exact .inr ⟨other, hother, hkey⟩
        · rw [List.mem_singleton] at hother
          subst hother
          exact .inl hkey.symm
    · simp [cursorAt, hrecord]
  | @again p record hfloor hrecord =>
    have hseen : (record.runId, record.cursor) ∈ tally.seen :=
      (h.seen _).mpr ⟨record, h.mem_handed hrecord hfloor (Nat.lt_succ_self p), rfl⟩
    simpa only [Tally.take, admitEvent, if_pos hseen] using h
  | closed hbound hcursor =>
    refine ⟨h.le, h.bound, h.handed, h.seen, ?_⟩
    show Option.or _ _ = _
    rw [hcursor, h.lastDelivered]
    cases cursorAt history p <;> rfl

/-- The events up to and including the one a cursor names. -/
def eventsUpTo (history : List (PublicEventRecord RunId Cursor Event)) :
    Option Cursor → List (PublicEventRecord RunId Cursor Event)
  | none => []
  | some cursor => eventsThrough cursor history

/-- Exactly-once delivery: the events handed over are the first of those after the initial cursor,
in commit order, each once, and none is at or before that cursor. -/
structure HandedOver (history : List (PublicEventRecord RunId Cursor Event))
    (fromCursor : Option Cursor) (handed : List (PublicEventRecord RunId Cursor Event)) : Prop where
  inOrder : handed <+: eventsAfter history fromCursor
  once : handed.Nodup
  past : ∀ record ∈ handed, record ∉ eventsUpTo history fromCursor

theorem HandedOver.nil (history : List (PublicEventRecord RunId Cursor Event))
    (fromCursor : Option Cursor) : HandedOver history fromCursor [] :=
  ⟨List.nil_prefix, List.nodup_nil, fun _ h => nomatch h⟩

theorem eventsThrough_eq_take (hunique : CursorsUnique history)
    {record : PublicEventRecord RunId Cursor Event} (hp : history[p]? = some record) :
    eventsThrough record.cursor history = history.take (p + 1) := by
  induction history generalizing p with
  | nil => simp at hp
  | cons first history ih =>
    cases p with
    | zero =>
      simp only [List.getElem?_cons_zero, Option.some.injEq] at hp
      simp [eventsThrough, hp]
    | succ p =>
      have hrest : history[p]? = some record := by simpa using hp
      have hunique' := List.nodup_cons.mp hunique
      have hne : first.cursor ≠ record.cursor := by
        intro heq
        exact hunique'.1 (List.mem_map.mpr ⟨record, List.mem_of_getElem? hrest, heq.symm⟩)
      rw [eventsThrough, if_neg hne, ih hunique'.2 hrest, List.take_succ_cons]

theorem eventsUpTo_cursorAt (hunique : CursorsUnique history) (hp : p ≤ history.length) :
    eventsUpTo history (cursorAt history p) = history.take p := by
  cases p with
  | zero => rfl
  | succ p =>
    have hlt : p < history.length := hp
    have hcursor : cursorAt history (p + 1) = some history[p].cursor := by simp [cursorAt, hlt]
    rw [hcursor, eventsUpTo, eventsThrough_eq_take hunique (List.getElem?_eq_getElem hlt)]

/-- A tally that holds the events from the starting position on has them exactly once. -/
theorem Holds.handedOver (hrun : OneRun run history) (h : Holds history start p tally) :
    HandedOver history (cursorAt history start) tally.handed := by
  have hstart : start ≤ history.length := h.le.trans h.bound
  have hnodup : history.Nodup := List.Nodup.of_map _ hrun.unique
  constructor
  · rw [eventsAfter_cursorAt hrun.unique hstart, h.handed, List.drop_take]
    exact List.take_prefix _ _
  · rw [h.handed]
    exact hnodup.sublist ((List.drop_sublist _ _).trans (List.take_sublist _ _))
  · intro record hrecord hbefore
    rw [eventsUpTo_cursorAt hrun.unique hstart] at hbefore
    rw [h.handed, List.drop_take] at hrecord
    have hafter := (List.take_sublist _ _).subset hrecord
    rw [← List.take_append_drop start history] at hnodup
    exact (List.disjoint_of_nodup_append hnodup) hbefore hafter

/-! ## The store and one client -/

/-- `ReconnectingEventStream`, with the run of its subscription. -/
structure ReconnectingEventStream (RunId Cursor Event : Type) where
  stream : WatchEventStream RunId Cursor Event
  runId : Option RunId
  tally : Tally RunId Cursor Event

/-- The committed events of the run, and the client once it watches. -/
structure InProcess (RunId Cursor Event : Type) where
  history : List (PublicEventRecord RunId Cursor Event)
  client : Option (ReconnectingEventStream RunId Cursor Event)

inductive InProcessEvent (Cursor Event : Type)
  /-- An event is committed and offered to the live queue. -/
  | commit (cursor : Cursor) (event : Event)
  /-- The last committed event is offered again. -/
  | redeliver
  /-- The store drops the live queue. -/
  | hangUp
  /-- `WatchClient::watch` -/
  | watch (parked : Bool) (capacity : Nat)
  /-- `WatchClient::reconnect` -/
  | reconnect (parked : Bool) (capacity : Nat)
  /-- The handle is dropped. -/
  | cancel
  /-- One pass of `next`, with the store's answer to a page request. -/
  | next (answer : Option Nat)
  deriving DecidableEq, Repr

namespace ReconnectingEventStream

/-- `WatchClient::watch`, on a resolved subscription. -/
def watch (params : WatchParams RunId Cursor) (resolved : ResolvedSubscription RunId Cursor Event) :
    ReconnectingEventStream RunId Cursor Event :=
  { stream := .new resolved
    runId := resolved.runId
    tally := { seen := [], lastDelivered := params.fromCursor, handed := [] } }

/-- The parameters of `WatchClient::reconnect`. -/
def reconnectParams (client : ReconnectingEventStream RunId Cursor Event) :
    WatchParams RunId Cursor :=
  { runId := client.runId
    fromCursor := client.tally.lastDelivered }

def reconnect (client : ReconnectingEventStream RunId Cursor Event)
    (resolved : ResolvedSubscription RunId Cursor Event) :
    ReconnectingEventStream RunId Cursor Event :=
  { stream := .new resolved
    runId := resolved.runId
    tally := client.tally }

/-- One pass of `next`: what the stream yields is admitted or dropped. -/
def next (history : List (PublicEventRecord RunId Cursor Event)) (answer : Option Nat)
    (client : ReconnectingEventStream RunId Cursor Event) :
    ReconnectingEventStream RunId Cursor Event :=
  match client.stream.turn history answer with
  | (.yields (.record record), stream) =>
    { stream := stream
      runId := some (client.runId.getD record.runId)
      tally := client.tally.take (.record record) }
  | (.yields item, stream) => { client with stream := stream, tally := client.tally.take item }
  | (_, stream) => { client with stream := stream }

end ReconnectingEventStream

namespace InProcess

def onStream (s : InProcess RunId Cursor Event)
    (f : WatchEventStream RunId Cursor Event → WatchEventStream RunId Cursor Event) :
    InProcess RunId Cursor Event :=
  { s with client := s.client.map fun client => { client with stream := f client.stream } }

/-- Whether the live queue of the client takes what is offered to it. -/
def listening (s : InProcess RunId Cursor Event) : Bool :=
  s.client.any fun client => client.stream.listening

def handed (s : InProcess RunId Cursor Event) : List (PublicEventRecord RunId Cursor Event) :=
  s.client.elim [] fun client => client.tally.handed

end InProcess

/-- One step of the store or of the client; a refused subscription is no step. -/
def inProcessStep (run : RunId) (params : WatchParams RunId Cursor) :
    InProcessEvent Cursor Event → InProcess RunId Cursor Event →
      Option (InProcess RunId Cursor Event)
  | .commit cursor event, s =>
    if s.history.any (·.cursor = cursor) then none
    else some { s.onStream (.fanOut ⟨run, cursor, event⟩) with
      history := s.history ++ [⟨run, cursor, event⟩] }
  | .redeliver, s =>
    match s.history.getLast? with
    | none => none
    | some record => some (s.onStream (.fanOut record))
  | .hangUp, s => some (s.onStream .hangUp)
  | .watch parked capacity, s =>
    match s.client with
    | some _ => none
    | none =>
      (subscribe run s.history params parked capacity).map fun resolved =>
        { s with client := some (.watch params resolved) }
  | .reconnect parked capacity, s =>
    s.client.bind fun client =>
      (subscribe run s.history client.reconnectParams parked capacity).map fun resolved =>
        { s with client := some (client.reconnect resolved) }
  | .cancel, s => some (s.onStream .cancel)
  | .next answer, s => some { s with client := s.client.map (·.next s.history answer) }

/-- No redelivery of the event at the initial cursor enters the live queue of the client. -/
def SparesInitial (params : WatchParams RunId Cursor) :
    InProcessEvent Cursor Event → InProcess RunId Cursor Event → Prop
  | .redeliver, s => s.listening = true → params.fromCursor ≠ none →
      s.history.getLast?.map (·.cursor) ≠ params.fromCursor
  | _, _ => True

instance (params : WatchParams RunId Cursor) (e : InProcessEvent Cursor Event)
    (s : InProcess RunId Cursor Event) : Decidable (SparesInitial params e s) := by
  cases e <;> unfold SparesInitial <;> infer_instance

/-- The client stands at a position, its stream reads on from there, and its tally holds the events
from the starting position to it. -/
structure InProcess.Inv (run : RunId) (params : WatchParams RunId Cursor)
    (s : InProcess RunId Cursor Event) : Prop where
  oneRun : OneRun run s.history
  client : ∀ client, s.client = some client → ∃ start p,
    params.fromCursor = cursorAt s.history start ∧ Reads s.history start p client.stream ∧
      Holds s.history start p client.tally

/-! ## Steps -/

theorem OneRun.commit (h : OneRun run history) {cursor : Cursor} {event : Event}
    (hfresh : history.any (·.cursor = cursor) = false) :
    OneRun run (history ++ [⟨run, cursor, event⟩]) := by
  constructor
  · unfold CursorsUnique
    rw [List.map_append, List.nodup_append]
    refine ⟨h.unique, List.nodup_singleton _, ?_⟩
    intro cursor' hmem cursor'' hlast heq
    obtain ⟨record, hrecord, rfl⟩ := List.mem_map.mp hmem
    simp only [List.map_cons, List.map_nil, List.mem_singleton] at hlast
    rw [List.any_eq_false] at hfresh
    exact hfresh record hrecord (by simp [heq, hlast])
  · intro record hrecord
    rcases List.mem_append.mp hrecord with hrecord | hrecord
    · exact h.runs record hrecord
    · rw [List.mem_singleton] at hrecord
      rw [hrecord]

theorem subscribe_position {params : WatchParams RunId Cursor} {parked : Bool} {capacity : Nat}
    {resolved : ResolvedSubscription RunId Cursor Event}
    (h : subscribe run history params parked capacity = some resolved) :
    ∃ start ≤ history.length, params.fromCursor = cursorAt history start := by
  cases hcursor : params.fromCursor with
  | none => exact ⟨0, Nat.zero_le _, rfl⟩
  | some cursor =>
    unfold subscribe at h
    split at h
    case isFalse => cases h
    case isTrue hguard =>
      have hany : history.any (·.cursor = cursor) = true := by
        simp only [hcursor, Bool.and_eq_true] at hguard
        exact hguard.1.2
      obtain ⟨record, hrecord, hname⟩ := List.any_eq_true.mp hany
      obtain ⟨k, hk⟩ := List.mem_iff_getElem?.mp hrecord
      refine ⟨k + 1, (List.getElem?_eq_some_iff.mp hk).1, ?_⟩
      simp only [cursorAt, hk, Option.map_some, Option.some.injEq]
      exact (of_decide_eq_true hname).symm

theorem Holds.initial {fromCursor : Option Cursor} (hstart : start ≤ history.length)
    (hcursor : fromCursor = cursorAt history start) :
    Holds history start start (⟨[], fromCursor, []⟩ : Tally RunId Cursor Event) := by
  refine ⟨Nat.le_refl _, hstart, ?_, ?_, hcursor⟩
  · rw [List.drop_take, Nat.sub_self, List.take_zero]
  · simp

/-- One pass of `next` moves the client and its stream together. -/
theorem ReconnectingEventStream.next_inv {client : ReconnectingEventStream RunId Cursor Event}
    (hrun : OneRun run history) (hreads : Reads history start p client.stream)
    (hholds : Holds history start p client.tally) (answer : Option Nat) :
    ∃ q, Reads history start q (client.next history answer).stream ∧
      Holds history start q (client.next history answer).tally := by
  unfold ReconnectingEventStream.next
  cases hturn : client.stream.turn history answer with
  | mk outcome stream =>
    obtain ⟨q, hmoves, hreads'⟩ := hreads.turn hrun.unique hturn
    cases outcome with
    | yields item =>
      have hholds' := hholds.take hrun hmoves
      cases item with
      | record record => exact ⟨q, hreads', hholds'⟩
      | closed reason cursor => exact ⟨q, hreads', hholds'⟩
    | looping =>
      cases hmoves
      exact ⟨p, hreads', hholds⟩
    | waiting =>
      cases hmoves
      exact ⟨p, hreads', hholds⟩
    | ended =>
      cases hmoves
      exact ⟨p, hreads', hholds⟩

variable {params : WatchParams RunId Cursor} {s t : InProcess RunId Cursor Event}

theorem InProcess.Inv.onStream (h : s.Inv run params)
    {f : WatchEventStream RunId Cursor Event → WatchEventStream RunId Cursor Event}
    (hf : ∀ client start p, s.client = some client → params.fromCursor = cursorAt s.history start →
      Reads s.history start p client.stream → Holds s.history start p client.tally →
      Reads s.history start p (f client.stream)) :
    (s.onStream f).Inv run params := by
  refine ⟨h.oneRun, fun client hclient => ?_⟩
  obtain ⟨client₀, hclient₀, rfl⟩ := Option.map_eq_some_iff.mp hclient
  obtain ⟨start, p, hcursor, hreads, hholds⟩ := h.client client₀ hclient₀
  exact ⟨start, p, hcursor, hf client₀ start p hclient₀ hcursor hreads hholds, hholds⟩

/-- **Steps keep the invariant**, as long as the event at the initial cursor is not redelivered. -/
theorem InProcess.Inv.step {e : InProcessEvent Cursor Event} (hspares : SparesInitial params e s)
    (hstep : inProcessStep run params e s = some t) (h : s.Inv run params) : t.Inv run params := by
  cases e with
  | commit cursor event =>
    simp only [inProcessStep] at hstep
    split at hstep
    case isTrue => cases hstep
    case isFalse hfresh =>
      cases hstep
      refine ⟨h.oneRun.commit (Bool.eq_false_iff.mpr hfresh), fun client hclient => ?_⟩
      obtain ⟨client₀, hclient₀, rfl⟩ := Option.map_eq_some_iff.mp hclient
      obtain ⟨start, p, hcursor, hreads, hholds⟩ := h.client client₀ hclient₀
      refine ⟨start, p, ?_, hreads.commit, hholds.append⟩
      rw [hcursor]
      exact (cursorAt_append (hholds.le.trans hholds.bound)).symm
  | redeliver =>
    simp only [inProcessStep] at hstep
    split at hstep
    next => cases hstep
    next record hlast =>
      cases hstep
      refine h.onStream fun client start p hclient hcursor hreads hholds => ?_
      refine hreads.redeliver hlast fun hlistening => ?_
      -- at the floor, the last event would be the one at the initial cursor
      by_contra hfloor
      have hstart : start = s.history.length := by
        have := hholds.le.trans hholds.bound
        omega
      rw [hstart, cursorAt_length] at hcursor
      have hlive : s.listening = true := by simp [InProcess.listening, hclient, hlistening]
      refine hspares hlive ?_ hcursor.symm
      rw [hcursor, hlast]
      simp
  | hangUp =>
    cases hstep
    exact h.onStream fun _ _ _ _ _ hreads _ => hreads.hangUp
  | watch parked capacity =>
    simp only [inProcessStep] at hstep
    split at hstep
    next => cases hstep
    next =>
      obtain ⟨resolved, hresolved, rfl⟩ := Option.map_eq_some_iff.mp hstep
      obtain ⟨start, hstart, hcursor⟩ := subscribe_position hresolved
      refine ⟨h.oneRun, fun client hclient => ?_⟩
      cases hclient
      exact ⟨start, start, hcursor, .new hresolved hcursor hstart, .initial hstart hcursor⟩
  | reconnect parked capacity =>
    obtain ⟨client₀, hclient₀, hstep⟩ := Option.bind_eq_some_iff.mp hstep
    obtain ⟨resolved, hresolved, rfl⟩ := Option.map_eq_some_iff.mp hstep
    obtain ⟨start, p, hcursor, -, hholds⟩ := h.client client₀ hclient₀
    refine ⟨h.oneRun, fun client hclient => ?_⟩
    cases hclient
    exact ⟨start, p, hcursor, .new hresolved hholds.lastDelivered hholds.bound, hholds⟩
  | cancel =>
    cases hstep
    exact h.onStream fun _ _ _ _ _ hreads _ => hreads.cancel
  | next answer =>
    cases hstep
    refine ⟨h.oneRun, fun client hclient => ?_⟩
    obtain ⟨client₀, hclient₀, rfl⟩ := Option.map_eq_some_iff.mp hclient
    obtain ⟨start, p, hcursor, hreads, hholds⟩ := h.client client₀ hclient₀
    obtain ⟨q, hreads', hholds'⟩ := client₀.next_inv h.oneRun hreads hholds answer
    exact ⟨start, q, hcursor, hreads', hholds'⟩

/-- Before any event, and before the client watches. -/
def InProcess.initial : InProcess RunId Cursor Event := ⟨[], none⟩

theorem InProcess.inv_initial : (initial : InProcess RunId Cursor Event).Inv run params := by
  refine ⟨⟨List.nodup_nil, fun _ h => nomatch h⟩, fun _ h => nomatch h⟩

theorem InProcess.Inv.handedOver (h : s.Inv run params) :
    HandedOver s.history params.fromCursor s.handed := by
  unfold InProcess.handed
  cases hclient : s.client with
  | none => exact .nil _ _
  | some client =>
    obtain ⟨start, p, hcursor, -, hholds⟩ := h.client client hclient
    rw [hcursor]
    exact hholds.handedOver h.oneRun

/-- The client in one process hands over every event once, in every run. -/
theorem inProcess_handedOver {events : List (InProcessEvent Cursor Event)}
    (hrun : Machine.run (inProcessStep run params) events .initial = some s)
    (hspares : Along (inProcessStep run params) (SparesInitial params) events .initial) :
    HandedOver s.history params.fromCursor s.handed :=
  (run_invariant_along (fun _ _ _ hallowed hstep h => InProcess.Inv.step hallowed hstep h) hrun
    hspares InProcess.inv_initial).handedOver

end

end Zeroshot.Watch
