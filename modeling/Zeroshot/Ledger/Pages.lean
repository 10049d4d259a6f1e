import Zeroshot.Ledger.Refinement
import Zeroshot.Lib.Paging

set_option autoImplicit false

/-!
# Pages of a journal

What `snapshot_and_tail` returns on both stores: the stored snapshot and a page of the events after
the requested cursor. The row scan of the durable adapter and the slice of the in-memory one are
both `page`.
-/

namespace Zeroshot.Ledger

variable {Program : Type}

/-- The encoded size of a stored event. -/
def eventSize (wire : Wire) (stored : StoredRunEvent) : Nat :=
  (wire.eventBytes stored.event).getD 0

/-- The page of a journal after `k` events, which have these sizes. -/
def pageAfter (size : StoredRunEvent → Nat) (events : List StoredRunEvent) (k : Nat) :
    List StoredRunEvent :=
  page size maxReplayBytes maxReplayEvents (events.drop k)

theorem eventSize_le {codec : Codec Program} {stored : StoredRunEvent}
    (h : validateEvent codec.wire stored.event = true) :
    eventSize codec.wire stored ≤ maxReplayBytes := by
  obtain ⟨text, hencode, hbytes⟩ := SqliteRunLedger.encodeEvent_of_valid h
  simp only [eventSize, Codec.wire, hencode, Option.map_some, Option.getD_some]
  exact hbytes

/-! ## The slice -/

namespace FakeRunLedger

theorem fillPage_eq {codec : Codec Program} {events : List StoredRunEvent}
    (hvalid : ∀ e ∈ events, validateEvent codec.wire e.event = true) (used : Nat) :
    fillPage codec.wire events used =
      .ok (fill (eventSize codec.wire) maxReplayBytes events used) := by
  induction events generalizing used with
  | nil => rfl
  | cons stored events ih =>
    obtain ⟨text, hencode, -⟩ :=
      SqliteRunLedger.encodeEvent_of_valid (hvalid stored List.mem_cons_self)
    have hbytes : codec.wire.eventBytes stored.event = some (codec.bytes text) := by
      simp only [Codec.wire, hencode, Option.map_some]
    have hsize : eventSize codec.wire stored = codec.bytes text := by
      rw [eventSize, hbytes, Option.getD_some]
    simp only [fillPage, fill, hbytes, hsize]
    split
    · rfl
    · rw [ih fun e he => hvalid e (List.mem_cons_of_mem _ he)]
      rfl

theorem replayPage_eq {codec : Codec Program} {events : List StoredRunEvent}
    (hvalid : ∀ e ∈ events, validateEvent codec.wire e.event = true) (k : Nat) :
    replayPage codec.wire events k = .ok (pageAfter (eventSize codec.wire) events k) :=
  fillPage_eq (fun e he => hvalid e (List.mem_of_mem_drop (List.mem_of_mem_take he))) 0

/-- The requested position. -/
def requested (after : Option Cursor) : Except RunLedgerError Nat :=
  after.elim (.ok 0) cursorSequence

/-- What `snapshot_and_tail` returns for a run. -/
theorem snapshotAndTail_eq {codec : Codec Program} {state : FakeRunLedger Program}
    (hcoherent : state.Coherent codec.wire) {runId : RunId} {run : FakeRun Program}
    (hrun : OrdMap.get? state.runs runId = some run) (after : Option Cursor) :
    snapshotAndTail codec runId after state =
      (requested after).bind fun k =>
        if run.events.length < k then .error .cursorAhead
        else .ok ⟨run.stored.snapshot, pageAfter (eventSize codec.wire) run.events k⟩ := by
  have hsourced := hcoherent.sourced runId run hrun
  simp only [snapshotAndTail, hrun]
  change (requested after).bind _ = _
  congr 1
  funext k
  simp only [hsourced.sequence, bind, Except.bind, replayPage_eq hsourced.valid]

end FakeRunLedger

/-! ## The row scan -/

namespace SqliteRunLedger

variable {codec : Codec Program}

theorem eventRows_consecutive (runId : RunId) (n : Nat) {events : List StoredRunEvent}
    (hvalid : ∀ e ∈ events, validateEvent codec.wire e.event = true) :
    Consecutive n (eventRows codec runId n events) := by
  induction events generalizing n with
  | nil => trivial
  | cons stored events ih =>
    obtain ⟨text, hencode, -⟩ := encodeEvent_of_valid (hvalid stored List.mem_cons_self)
    simp only [eventRows, hencode]
    exact ⟨rfl, ih (n + 1) fun e he => hvalid e (List.mem_cons_of_mem _ he)⟩

/-- The rows of a journal are read as its events. -/
theorem eventRows_reads (runId : RunId) {n : Nat} {events : List StoredRunEvent}
    (hread : ∀ e ∈ events, ∀ text, codec.encodeEvent e.event = some text →
      codec.decodeEvent text = some e.event)
    (hvalid : ∀ e ∈ events, validateEvent codec.wire e.event = true)
    (hcursors : events.map StoredRunEvent.cursor = cursorsFrom n events.length) :
    List.Forall₂ (Reads (eventSize codec.wire)) (eventRows codec runId n events) events := by
  induction events generalizing n with
  | nil => exact .nil
  | cons stored events ih =>
    obtain ⟨text, hencode, hbytes⟩ := encodeEvent_of_valid (hvalid stored List.mem_cons_self)
    rw [List.map_cons, List.length_cons, cursorsFrom, List.cons.injEq] at hcursors
    have hpositive : ¬ ((n + 1 : Nat) : Int) < 0 := by omega
    simp only [eventRows, hencode]
    refine .cons ⟨?_, ?_, hbytes⟩ (ih (fun e he => hread e (List.mem_cons_of_mem _ he))
      (fun e he => hvalid e (List.mem_cons_of_mem _ he)) hcursors.2)
    · simp only [decodeReplayEvent, if_neg hpositive, Int.toNat_natCast,
        hread stored List.mem_cons_self text hencode]
      rw [← hcursors.1]
    · simp only [eventSize, Codec.wire, hencode, Option.map_some, Option.getD_some]

theorem cursors_drop {events : List StoredRunEvent} {n : Nat}
    (h : events.map StoredRunEvent.cursor = cursorsFrom n events.length) (k : Nat) :
    (events.drop k).map StoredRunEvent.cursor = cursorsFrom (n + k) (events.drop k).length := by
  induction events generalizing n k with
  | nil => simp [cursorsFrom]
  | cons stored events ih =>
    cases k with
    | zero => exact h
    | succ k =>
      rw [List.map_cons, List.length_cons, cursorsFrom, List.cons.injEq] at h
      rw [List.drop_succ_cons, ih h.2, show n + (k + 1) = n + 1 + k by omega]

theorem cursors_take {events : List StoredRunEvent} {n : Nat}
    (h : events.map StoredRunEvent.cursor = cursorsFrom n events.length) (k : Nat) :
    (events.take k).map StoredRunEvent.cursor = cursorsFrom n (events.take k).length := by
  induction events generalizing n k with
  | nil => simp [cursorsFrom]
  | cons stored events ih =>
    cases k with
    | zero => rfl
    | succ k =>
      rw [List.map_cons, List.length_cons, cursorsFrom, List.cons.injEq] at h
      rw [List.take_succ_cons, List.map_cons, ih h.2, h.1, List.length_cons, cursorsFrom]

section

variable {state later : FakeRunLedger Program} {first second : Database codec.Text}

/-- What `snapshot_and_tail` returns when its two statements see two states of the run. -/
theorem snapshotPage_eq (hread : Readable codec state) (hread' : Readable codec later)
    (hfirst : state.Coherent codec.wire) (hsecond : later.Coherent codec.wire)
    (h : Simulates codec state first) (h' : Simulates codec later second) {runId : RunId}
    {run run' : FakeRun Program}
    (hrun : OrdMap.get? state.runs runId = some run)
    (hrun' : OrdMap.get? later.runs runId = some run') (after : Option Cursor) :
    snapshotPage codec first second runId after =
      (FakeRunLedger.requested after).bind fun k =>
        if run.events.length < k then .error .cursorAhead
        else .ok ⟨run.stored.snapshot, pageAfter (eventSize codec.wire) run'.events k⟩ := by
  have hsourced := hfirst.sourced runId run hrun
  have hsourced' := hsecond.sourced runId run' hrun'
  have hrows : eventsOf codec second runId = eventRows codec runId 0 run'.events := by
    rw [h'.events, hrun']
    rfl
  have hpage : ∀ k : Nat, readPage codec second runId k =
      .ok (pageAfter (eventSize codec.wire) run'.events k) := by
    refine readPage_eq ?_ ?_
    · rw [hrows]
      exact eventRows_consecutive runId 0 hsourced'.valid
    · rw [hrows]
      exact eventRows_reads runId (hread'.event runId run' hrun') hsourced'.valid
        hsourced'.cursors
  simp only [snapshotPage, loadExisting_eq hread hfirst h, hrun]
  change (FakeRunLedger.requested after).bind _ = _
  congr 1
  funext k
  simp only [hsourced.sequence, bind, Except.bind, hpage]
  by_cases hahead : run.events.length < k
  · rw [if_pos hahead, if_pos hahead]
  · have hshort : ¬ 2 ^ 63 ≤ k := by
      have := h.short runId run hrun
      omega
    rw [if_neg hahead, if_neg hahead, if_neg hshort]

end

end SqliteRunLedger

end Zeroshot.Ledger
