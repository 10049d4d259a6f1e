import Zeroshot.Ledger.Exact
import Zeroshot.Ledger.Rows

set_option autoImplicit false

/-!
# The durable ledger simulates the in-memory one

`Simulates` relates an in-memory store to a database: each run is one row with its stored run and
the length of its journal, and its events are the rows numbered from one. Every call on related
stores succeeds on both sides with the same reply or fails on both, and leaves related stores. The
comparison is made with the durable adapter's numbering and carried over to the in-memory one below
`2 ^ 63` events.
-/

namespace Zeroshot.Ledger

variable {Program : Type}

theorem OpaqueId.asStr_inj {tag : OpaqueTag} {a b : OpaqueId tag} : a.asStr = b.asStr ↔ a = b := by
  cases a
  cases b
  simp

namespace SqliteRunLedger

variable (codec : Codec Program)

/-! ## Rows -/

/-- The row of a run. -/
def runRow (runId : RunId) (run : FakeRun Program) : RunRow codec.Text where
  runId := runId.asStr
  submissionKey := run.stored.submissionKey.asStr
  submissionDigest := run.stored.submissionDigest
  cursor := run.events.length
  storedJson := codec.encodeStored run.stored

/-- The rows of events numbered from `n + 1`. -/
def eventRows (runId : RunId) : Nat → List StoredRunEvent → List (EventRow codec.Text)
  | _, [] => []
  | n, stored :: events =>
    match codec.encodeEvent stored.event with
    | some text => ⟨runId.asStr, (n + 1 : Nat), text⟩ :: eventRows runId (n + 1) events
    | none => eventRows runId (n + 1) events

/-- The database holds the runs of the in-memory store, and nothing else. -/
structure Simulates (state : FakeRunLedger Program) (database : Database codec.Text) : Prop where
  run : ∀ runId : RunId, database.selectRun runId.asStr =
    (OrdMap.get? state.runs runId).map (runRow codec runId)
  submission : ∀ key : SubmissionKey, database.selectSubmission key.asStr =
    (OrdMap.get? state.submissions key).bind fun runId =>
      (OrdMap.get? state.runs runId).map (runRow codec runId)
  distinct : (database.runs.map RunRow.runId).Nodup
  keys : (database.runs.map RunRow.submissionKey).Nodup
  events : ∀ runId : RunId, eventsOf codec database runId =
    ((OrdMap.get? state.runs runId).map fun run => eventRows codec runId 0 run.events).getD []
  short : ∀ (runId : RunId) run, OrdMap.get? state.runs runId = some run →
    run.events.length < 2 ^ 63

variable {codec}

theorem simulates_empty : Simulates codec FakeRunLedger.empty Database.empty where
  run _ := rfl
  submission _ := rfl
  distinct := List.nodup_nil
  keys := List.nodup_nil
  events _ := rfl
  short _ _ h := by cases h

theorem mem_eventRows {runId : RunId} {n : Nat} {events : List StoredRunEvent}
    {row : EventRow codec.Text} (h : row ∈ eventRows codec runId n events) :
    row.runId = runId.asStr ∧ (n : Int) < row.sequence ∧ row.sequence ≤ n + events.length := by
  induction events generalizing n with
  | nil => cases h
  | cons stored events ih =>
    have hrest : row ∈ eventRows codec runId (n + 1) events →
        row.runId = runId.asStr ∧ (n : Int) < row.sequence ∧
          row.sequence ≤ n + (stored :: events).length := by
      intro hmem
      obtain ⟨hid, hlt, hle⟩ := ih hmem
      refine ⟨hid, ?_, ?_⟩
      · push_cast at hlt
        omega
      · push_cast [List.length_cons] at hle ⊢
        omega
    rw [eventRows] at h
    split at h
    · rcases List.mem_cons.mp h with rfl | h
      · refine ⟨rfl, ?_, ?_⟩
        · push_cast
          omega
        · push_cast [List.length_cons]
          omega
      · exact hrest h
    · exact hrest h

theorem eventRows_append (runId : RunId) (n : Nat) (events more : List StoredRunEvent) :
    eventRows codec runId n (events ++ more) =
      eventRows codec runId n events ++ eventRows codec runId (n + events.length) more := by
  induction events generalizing n with
  | nil => rfl
  | cons stored events ih =>
    have hlength : n + 1 + events.length = n + (events.length + 1) := by omega
    simp only [List.cons_append, eventRows, List.length_cons]
    split
    · rw [ih, hlength, List.cons_append]
    · rw [ih, hlength]

/-! ## Loading -/

section

variable {state : FakeRunLedger Program} {database : Database codec.Text}

theorem decodeStored_eq {runId : RunId} {run : FakeRun Program}
    (hread : codec.decodeStored (codec.encodeStored run.stored) = some run.stored)
    (hsourced : Sourced codec.wire (.ofAdmitted runId run.stored.admitted) run.stored.snapshot
      run.events) :
    decodeStored codec runId (runRow codec runId run).cursor (runRow codec runId run).storedJson =
      .ok run.stored := by
  have hid : run.stored.snapshot.runId = runId := congrArg RunSnapshot.runId hsourced.seeded
  have hcursor : ¬ (run.events.length : Int) < 0 := by omega
  simp only [decodeStored, runRow, hread, if_neg hcursor, hid, ne_eq, not_true,
    if_false, hsourced.sequence]
  simp only [bind, Except.bind, not_true, if_false]

theorem loadById_eq (hread : Readable codec state) (hcoherent : state.Coherent codec.wire)
    (h : Simulates codec state database) (runId : RunId) :
    loadById codec database runId = .ok ((OrdMap.get? state.runs runId).map FakeRun.stored) := by
  unfold loadById
  rw [h.run]
  cases hrun : OrdMap.get? state.runs runId with
  | none => rfl
  | some run =>
    simp only [Option.map_some]
    rw [decodeStored_eq (hread.stored runId run hrun) (hcoherent.sourced runId run hrun)]
    rfl

theorem loadBySubmission_eq (hread : Readable codec state) (hcoherent : state.Coherent codec.wire)
    (h : Simulates codec state database) (key : SubmissionKey) :
    loadBySubmission codec database key = .ok ((OrdMap.get? state.submissions key).bind fun runId =>
      (OrdMap.get? state.runs runId).map fun run =>
        (runId.asStr, run.stored.submissionDigest, run.stored)) := by
  unfold loadBySubmission
  rw [h.submission]
  cases hkey : OrdMap.get? state.submissions key with
  | none => rfl
  | some runId =>
    simp only [Option.bind_some]
    cases hrun : OrdMap.get? state.runs runId with
    | none => rfl
    | some run =>
      simp only [Option.map_some]
      have hdecode := decodeStored_eq (hread.stored runId run hrun)
        (hcoherent.sourced runId run hrun)
      change (decodeStored codec runId _ _ >>= fun stored => _) = _
      rw [hdecode]
      rfl

theorem loadExisting_eq (hread : Readable codec state) (hcoherent : state.Coherent codec.wire)
    (h : Simulates codec state database) (runId : RunId) :
    loadExisting codec database runId =
      match OrdMap.get? state.runs runId with
      | some run => .ok run.stored
      | none => .error .runNotFound := by
  unfold loadExisting
  rw [loadById_eq hread hcoherent h]
  cases OrdMap.get? state.runs runId with
  | none => rfl
  | some run => rfl

end

/-! ## Appending -/

theorem numbering_nextSequence : Numbering nextSequence := by
  intro n m h
  obtain ⟨rfl, hsmall⟩ := nextSequence_eq_ok h
  exact ⟨rfl, hsmall.trans (by decide)⟩

theorem appendLoop_short {wire : Wire} {s s' : RunSnapshot} {n n' : Nat} {events : List RunEvent}
    {stored : List StoredRunEvent} (hn : n < 2 ^ 63)
    (h : appendLoop wire nextSequence s n events = .ok (s', n', stored)) : n' < 2 ^ 63 := by
  induction events generalizing s n s' n' stored with
  | nil =>
    cases h
    exact hn
  | cons event events ih =>
    simp only [appendLoop, except_bind_eq_ok] at h
    obtain ⟨m, hm, h⟩ := h
    split at h
    · cases h
    · obtain ⟨⟨s₁, n₁, stored₁⟩, hrest, h⟩ := except_bind_eq_ok.mp h
      cases h
      exact ih (nextSequence_eq_ok hm).2 hrest

theorem appendLocked_short {wire : Wire} {run run' : FakeRun Program} {events : List RunEvent}
    {result : AppendResult} {seed : RunSnapshot}
    (hsourced : Sourced wire seed run.stored.snapshot run.events)
    (hshort : run.events.length < 2 ^ 63)
    (h : FakeRunLedger.appendLocked wire nextSequence run events = .ok (result, run')) :
    run'.events.length < 2 ^ 63 := by
  unfold FakeRunLedger.appendLocked at h
  split at h
  · cases h
  · simp only [hsourced.sequence, except_bind_eq_ok] at h
    obtain ⟨n, hn, ⟨snapshot, last, stored⟩, hloop, h⟩ := h
    cases hn
    cases h
    obtain ⟨-, hlast, -⟩ := appendLoop_appended numbering_nextSequence hloop
    rw [List.length_append, ← hlast]
    exact appendLoop_short hshort hloop

/-- There is room after `n` in the events of a run. -/
structure Room (database : Database codec.Text) (runId : RunId) (n : Nat) : Prop where
  exists_ : (database.runs.any fun row => row.runId == runId.asStr) = true
  free : ∀ row ∈ database.events, row.runId = runId.asStr → row.sequence ≤ n

theorem Room.insert {database : Database codec.Text} {runId : RunId} {n : Nat}
    (h : Room database runId n) (text : codec.Text) :
    database.insertEvent ⟨runId.asStr, (n + 1 : Nat), text⟩ =
        .ok (addEvents codec database [⟨runId.asStr, (n + 1 : Nat), text⟩]) ∧
      Room (addEvents codec database [⟨runId.asStr, (n + 1 : Nat), text⟩]) runId (n + 1) := by
  have hfresh : (database.events.any fun other =>
      other.runId == runId.asStr && other.sequence == ((n + 1 : Nat) : Int)) = false := by
    rw [List.any_eq_false]
    intro row hrow heq
    rw [Bool.and_eq_true, beq_iff_eq, beq_iff_eq] at heq
    have hle := h.free row hrow heq.1
    rw [heq.2] at hle
    push_cast at hle
    omega
  refine ⟨?_, h.exists_, ?_⟩
  · simp only [Database.insertEvent, hfresh, h.exists_]
    rfl
  · intro row hrow hid
    rcases List.mem_append.mp hrow with hrow | hrow
    · have hle := h.free row hrow hid
      push_cast
      omega
    · cases List.mem_singleton.mp hrow
      exact Int.le_refl _

/-- The durable loop is the loop of the port, with a row inserted for every event. -/
theorem appendEvents_eq (runId : RunId) (events : List RunEvent) {database : Database codec.Text}
    {n : Nat} (hroom : Room database runId n) (s : RunSnapshot) :
    appendEvents codec runId events ⟨database, s, n⟩ =
      (appendLoop codec.wire nextSequence s n events).map fun r =>
        (r.2.2, ⟨addEvents codec database (eventRows codec runId n r.2.2), r.1, r.2.1⟩) := by
  induction events generalizing database n s with
  | nil => simp [appendEvents, appendLoop, Except.map, eventRows, addEvents]
  | cons event events ih =>
    simp only [appendEvents, oneEvent, appendLoop]
    cases hnext : nextSequence n with
    | error e => rfl
    | ok m =>
      obtain ⟨rfl, -⟩ := numbering_nextSequence n m hnext
      simp only [bind, Except.bind]
      cases happly : applyEvent codec.wire (prepareEvent s event) (n + 1) s with
      | error e t => rfl
      | ok u t =>
        obtain ⟨-, hvalid, -⟩ := applyEvent_eq_ok happly
        obtain ⟨text, hencode, -⟩ := encodeEvent_of_valid hvalid
        obtain ⟨hinsert, hroom'⟩ := hroom.insert text
        simp only [insertEvent, hencode, hinsert, ih hroom' t]
        cases hloop : appendLoop codec.wire nextSequence t (n + 1) events with
        | error e => rfl
        | ok r =>
          simp only [Except.map, eventRows, hencode, addEvents, List.append_assoc,
            List.singleton_append]

theorem any_runId_iff {database : Database codec.Text} {runId : String} :
    (database.runs.any fun row => row.runId == runId) = (database.selectRun runId).isSome := by
  rw [Database.selectRun, List.isSome_find?]

/-! ## Updated rows -/

/-- The row with its new journal. -/
def rewrite (runId : RunId) (run : FakeRun Program) (row : RunRow codec.Text) :
    RunRow codec.Text :=
  if row.runId = runId.asStr then
    { row with cursor := run.events.length, storedJson := codec.encodeStored run.stored }
  else row

theorem rewrite_runId (runId : RunId) (run : FakeRun Program) (row : RunRow codec.Text) :
    (rewrite runId run row).runId = row.runId := by
  unfold rewrite
  split <;> rfl

theorem rewrite_submissionKey (runId : RunId) (run : FakeRun Program) (row : RunRow codec.Text) :
    (rewrite runId run row).submissionKey = row.submissionKey := by
  unfold rewrite
  split <;> rfl

theorem rewrite_runRow {runId id : RunId} {run run' old : FakeRun Program}
    (hstored : run'.stored = { run.stored with snapshot := run'.stored.snapshot })
    (hold : id = runId → old = run) :
    rewrite runId run' (runRow codec id old) =
      runRow codec id (if id = runId then run' else old) := by
  unfold rewrite
  by_cases hid : id = runId
  · subst hid
    cases hold rfl
    rw [if_pos rfl, if_pos (show (runRow codec id run).runId = id.asStr from rfl)]
    simp only [runRow]
    rw [hstored]
  · have hne : ¬ (runRow codec id old).runId = runId.asStr :=
      fun heq => hid (OpaqueId.asStr_inj.mp heq)
    rw [if_neg hne, if_neg hid]

/-- Committing a run with a longer journal. -/
theorem Simulates.update {state : FakeRunLedger Program} {database : Database codec.Text}
    (h : Simulates codec state database) {runId : RunId} {run run' : FakeRun Program}
    {more : List StoredRunEvent} (hrun : OrdMap.get? state.runs runId = some run)
    (hstored : run'.stored = { run.stored with snapshot := run'.stored.snapshot })
    (hevents : run'.events = run.events ++ more) (hshort : run'.events.length < 2 ^ 63) :
    Simulates codec { state with runs := OrdMap.insert runId run' state.runs }
      ((addEvents codec database (eventRows codec runId run.events.length more)).updateRun
        runId.asStr run'.events.length (codec.encodeStored run'.stored)).1 := by
  have hget : ∀ id, OrdMap.get? (OrdMap.insert runId run' state.runs) id =
      (OrdMap.get? state.runs id).map fun old => if id = runId then run' else old := by
    intro id
    by_cases hid : id = runId
    · subst hid
      rw [OrdMap.get?_insert_self, hrun, Option.map_some, if_pos rfl]
    · rw [OrdMap.get?_insert_ne hid]
      simp [hid]
  have hrewrite : ∀ id old, OrdMap.get? state.runs id = some old →
      rewrite runId run' (runRow codec id old) =
        runRow codec id (if id = runId then run' else old) := by
    intro id old hold
    refine rewrite_runRow hstored fun hid => ?_
    subst hid
    rw [hrun] at hold
    exact (Option.some.inj hold).symm
  refine ⟨fun id => ?_, fun key => ?_, ?_, ?_, fun id => ?_, fun id other hother => ?_⟩
  · change List.find? _ (database.runs.map (rewrite runId run')) = _
    rw [List.find?_map]
    have hp : (fun row : RunRow codec.Text => row.runId == id.asStr) ∘ rewrite runId run' =
        fun row => row.runId == id.asStr := by
      funext row
      simp only [Function.comp_apply, rewrite_runId]
    rw [hp]
    change (database.selectRun id.asStr).map _ = _
    rw [h.run, hget]
    cases hold : OrdMap.get? state.runs id with
    | none => rfl
    | some old => simp only [Option.map_some, hrewrite id old hold]
  · change List.find? _ (database.runs.map (rewrite runId run')) = _
    rw [List.find?_map]
    have hp : (fun row : RunRow codec.Text => row.submissionKey == key.asStr) ∘
        rewrite runId run' = fun row => row.submissionKey == key.asStr := by
      funext row
      simp only [Function.comp_apply, rewrite_submissionKey]
    rw [hp]
    change (database.selectSubmission key.asStr).map _ = _
    rw [h.submission]
    cases hkey : OrdMap.get? state.submissions key with
    | none => rfl
    | some id =>
      simp only [Option.bind_some, hget]
      cases hold : OrdMap.get? state.runs id with
      | none => rfl
      | some old => simp only [Option.map_some, hrewrite id old hold]
  · change ((database.runs.map (rewrite runId run')).map RunRow.runId).Nodup
    rw [List.map_map]
    have hp : RunRow.runId ∘ rewrite runId run' = (RunRow.runId : RunRow codec.Text → String) := by
      funext row
      simp only [Function.comp_apply, rewrite_runId]
    rw [hp]
    exact h.distinct
  · change ((database.runs.map (rewrite runId run')).map RunRow.submissionKey).Nodup
    rw [List.map_map]
    have hp : RunRow.submissionKey ∘ rewrite runId run' =
        (RunRow.submissionKey : RunRow codec.Text → String) := by
      funext row
      simp only [Function.comp_apply, rewrite_submissionKey]
    rw [hp]
    exact h.keys
  · change (database.events ++ eventRows codec runId run.events.length more).filter _ = _
    rw [List.filter_append, hget]
    change eventsOf codec database id ++ _ = _
    rw [h.events]
    by_cases hid : id = runId
    · subst hid
      rw [hrun, List.filter_eq_self.mpr fun row hrow => beq_iff_eq.mpr (mem_eventRows hrow).1]
      simp only [Option.map_some, Option.getD_some, if_pos, hevents, eventRows_append,
        Nat.zero_add]
    · rw [List.filter_eq_nil_iff.mpr fun row hrow heq => ?_]
      · simp only [if_neg hid, Option.map_map, List.append_nil]
        cases OrdMap.get? state.runs id <;> rfl
      · rw [beq_iff_eq, (mem_eventRows hrow).1] at heq
        exact hid (OpaqueId.asStr_inj.mp heq).symm
  · by_cases hid : id = runId
    · subst hid
      rw [OrdMap.get?_insert_self] at hother
      cases hother
      exact hshort
    · rw [OrdMap.get?_insert_ne hid] at hother
      exact h.short id other hother

/-! ## Calls -/

section

variable {state : FakeRunLedger Program} {database : Database codec.Text}

/-- Both calls succeed with the same value, or both fail. -/
def Agree {α : Type} (x y : Except RunLedgerError α) : Prop := x.toOption = y.toOption

theorem Agree.map {α β : Type} {x y : Except RunLedgerError α} (h : Agree x y) (f : α → β) :
    Agree (x.map f) (y.map f) := by
  unfold Agree at *
  cases x <;> cases y <;> simp_all [Except.map, Except.toOption]

theorem length_filter_runId (h : Simulates codec state database) {runId : RunId}
    {run : FakeRun Program} (hrun : OrdMap.get? state.runs runId = some run) :
    (database.runs.filter fun row => row.runId == runId.asStr).length = 1 := by
  have hfind := h.run runId
  rw [hrun, Option.map_some] at hfind
  have hmem := List.mem_of_find?_eq_some hfind
  rw [← List.countP_eq_length_filter]
  have hcount : (database.runs.map RunRow.runId).count runId.asStr = 1 :=
    List.count_eq_one_of_mem h.distinct (List.mem_map.mpr ⟨_, hmem, rfl⟩)
  rw [List.count, List.countP_map] at hcount
  exact hcount

/-- The update of a run that exists changes one row. -/
theorem updateStoredRun_eq (h : Simulates codec state database) {runId : RunId}
    {run : FakeRun Program} (hrun : OrdMap.get? state.runs runId = some run) (sequence : Nat)
    (stored : StoredRun Program) (rows : List (EventRow codec.Text)) :
    updateStoredRun codec runId sequence stored (addEvents codec database rows) =
      .ok ((addEvents codec database rows).updateRun runId.asStr sequence
        (codec.encodeStored stored)).1 := by
  have hone : ((addEvents codec database rows).updateRun runId.asStr sequence
      (codec.encodeStored stored)).2 = 1 := length_filter_runId h hrun
  rw [updateStoredRun, if_neg (not_not.mpr hone)]

theorem Simulates.room (h : Simulates codec state database) {runId : RunId}
    {run : FakeRun Program} (hrun : OrdMap.get? state.runs runId = some run) :
    Room database runId run.events.length := by
  refine ⟨?_, fun row hrow hid => ?_⟩
  · rw [any_runId_iff, h.run, hrun]
    rfl
  · have hmem : row ∈ eventsOf codec database runId :=
      List.mem_filter.mpr ⟨hrow, beq_iff_eq.mpr hid⟩
    rw [h.events, hrun] at hmem
    have hle := (mem_eventRows hmem).2.2
    push_cast at hle
    omega

/-- Appending a batch to a run that both stores have. -/
theorem appendTransaction_eq (hread : Readable codec state) (hcoherent : state.Coherent codec.wire)
    (h : Simulates codec state database) {runId : RunId} {run : FakeRun Program}
    (hrun : OrdMap.get? state.runs runId = some run) (events : List RunEvent) :
    appendTransaction codec runId events database =
      (FakeRunLedger.appendLocked codec.wire nextSequence run events).map fun r =>
        (r.1, ((addEvents codec database
            (eventRows codec runId run.events.length r.1.events)).updateRun runId.asStr
          r.2.events.length (codec.encodeStored r.2.stored)).1) := by
  unfold appendTransaction FakeRunLedger.appendLocked
  split
  · rfl
  · have hsourced := hcoherent.sourced runId run hrun
    rw [loadExisting_eq hread hcoherent h, hrun]
    simp only [bind, Except.bind, hsourced.sequence, appendEvents_eq runId events (h.room hrun)]
    cases hloop : appendLoop codec.wire nextSequence run.stored.snapshot run.events.length
        events with
    | error e => rfl
    | ok r =>
      obtain ⟨-, hlast, -⟩ := appendLoop_appended numbering_nextSequence hloop
      have hlength : r.2.1 = (run.events ++ r.2.2).length := by
        rw [List.length_append, hlast]
      simp only [Except.map, updateStoredRun_eq h hrun]
      rw [hlength]

theorem append_simulates (hcoherent : state.Coherent codec.wire)
    (h : Simulates codec state database) {runId : RunId} {run run' : FakeRun Program}
    {result : AppendResult} {events : List RunEvent}
    (hrun : OrdMap.get? state.runs runId = some run)
    (happend : FakeRunLedger.appendLocked codec.wire nextSequence run events =
      .ok (result, run')) :
    Simulates codec { state with runs := OrdMap.insert runId run' state.runs }
      ((addEvents codec database (eventRows codec runId run.events.length result.events)).updateRun
        runId.asStr run'.events.length (codec.encodeStored run'.stored)).1 := by
  obtain ⟨-, hstored, hevents, -⟩ := FakeRunLedger.appendLocked_eq_ok numbering_nextSequence
    (hcoherent.sourced runId run hrun) happend
  have hshort := appendLocked_short (hcoherent.sourced runId run hrun) (h.short runId run hrun)
    happend
  refine h.update hrun ?_ hevents hshort
  rw [hstored]

/-- Nothing changes when the run is put back. -/
theorem Simulates.reinsert (h : Simulates codec state database) {runId : RunId}
    {run : FakeRun Program} (hrun : OrdMap.get? state.runs runId = some run) :
    Simulates codec { state with runs := OrdMap.insert runId run state.runs } database := by
  have hget : ∀ id, OrdMap.get? (OrdMap.insert runId run state.runs) id =
      OrdMap.get? state.runs id := by
    intro id
    by_cases hid : id = runId
    · subst hid
      rw [OrdMap.get?_insert_self, hrun]
    · rw [OrdMap.get?_insert_ne hid]
  refine ⟨fun id => ?_, fun key => ?_, h.distinct, h.keys, fun id => ?_,
    fun id other hother => ?_⟩
  · rw [h.run, hget]
  · rw [h.submission]
    cases OrdMap.get? state.submissions key with
    | none => rfl
    | some id => simp only [Option.bind_some, hget]
  · rw [h.events, hget]
  · rw [hget] at hother
    exact h.short id other hother

/-- The two appending calls of the trait, on both stores. -/
theorem withRun_simulates (hread : Readable codec state) (hcoherent : state.Coherent codec.wire)
    (h : Simulates codec state database) (runId : RunId) (events : List RunEvent)
    (skip : RunSnapshot → Bool) :
    Agree (FakeRunLedger.withRun runId state fun run =>
        if skip run.stored.snapshot then .ok (⟨run.stored.snapshot, []⟩, run)
        else FakeRunLedger.appendLocked codec.wire nextSequence run events).1
      (withTransaction codec database fun database => do
        let stored ← loadExisting codec database runId
        if skip stored.snapshot then .ok (⟨stored.snapshot, []⟩, database)
        else appendTransaction codec runId events database).1 ∧
    Simulates codec (FakeRunLedger.withRun runId state fun run =>
        if skip run.stored.snapshot then .ok (⟨run.stored.snapshot, []⟩, run)
        else FakeRunLedger.appendLocked codec.wire nextSequence run events).2
      (withTransaction codec database fun database => do
        let stored ← loadExisting codec database runId
        if skip stored.snapshot then .ok (⟨stored.snapshot, []⟩, database)
        else appendTransaction codec runId events database).2 := by
  unfold FakeRunLedger.withRun withTransaction
  beta_reduce
  rw [loadExisting_eq hread hcoherent h]
  cases hrun : OrdMap.get? state.runs runId with
  | none => exact ⟨rfl, h⟩
  | some run =>
    simp only [bind, Except.bind]
    by_cases hskip : skip run.stored.snapshot = true
    · simp only [if_pos hskip]
      exact ⟨rfl, h.reinsert hrun⟩
    · simp only [if_neg hskip, appendTransaction_eq hread hcoherent h hrun]
      cases happend : FakeRunLedger.appendLocked codec.wire nextSequence run events with
      | error e => exact ⟨rfl, h⟩
      | ok r => exact ⟨rfl, append_simulates hcoherent h hrun happend⟩

/-- A new run, of a submission key and a run identifier that are not in use. -/
theorem Simulates.create (h : Simulates codec state database)
    (hcoherent : state.Coherent codec.wire) {request : CreateRun Program}
    (hkey : OrdMap.get? state.submissions request.submissionKey = none)
    (hrun : OrdMap.get? state.runs request.runId = none) :
    database.insertRun (runRow codec request.runId ⟨newRun request, []⟩) =
        .ok { database with
          runs := database.runs ++ [runRow codec request.runId ⟨newRun request, []⟩] } ∧
      Simulates codec
        ⟨OrdMap.insert request.runId ⟨newRun request, []⟩ state.runs,
          OrdMap.insert request.submissionKey request.runId state.submissions⟩
        { database with
          runs := database.runs ++ [runRow codec request.runId ⟨newRun request, []⟩] } := by
  have hnoRun : ∀ row ∈ database.runs, row.runId ≠ request.runId.asStr := by
    have hfind := h.run request.runId
    rw [hrun, Option.map_none, Database.selectRun, List.find?_eq_none] at hfind
    exact fun row hrow heq => hfind row hrow (beq_iff_eq.mpr heq)
  have hnoKey : ∀ row ∈ database.runs, row.submissionKey ≠ request.submissionKey.asStr := by
    have hfind := h.submission request.submissionKey
    rw [hkey, Option.bind_none, Database.selectSubmission, List.find?_eq_none] at hfind
    exact fun row hrow heq => hfind row hrow (beq_iff_eq.mpr heq)
  have hfree : (database.runs.any fun other => other.runId == request.runId.asStr ||
      other.submissionKey == request.submissionKey.asStr) = false := by
    rw [List.any_eq_false]
    intro row hrow heq
    rw [Bool.or_eq_true, beq_iff_eq, beq_iff_eq] at heq
    rcases heq with heq | heq
    · exact hnoRun row hrow heq
    · exact hnoKey row hrow heq
  refine ⟨?_, fun id => ?_, fun key => ?_, ?_, ?_, fun id => ?_, fun id other hother => ?_⟩
  · change (if (database.runs.any fun other => other.runId == request.runId.asStr ||
        other.submissionKey == request.submissionKey.asStr) = true then _ else _) = _
    rw [hfree]
    rfl
  · change List.find? _ (database.runs ++ [_]) = _
    rw [List.find?_append]
    change (database.selectRun id.asStr).or _ = _
    rw [h.run]
    by_cases hid : id = request.runId
    · subst hid
      rw [hrun, OrdMap.get?_insert_self]
      simp [runRow]
    · have hne : ¬ request.runId.asStr = id.asStr := fun heq => hid (OpaqueId.asStr_inj.mp heq).symm
      rw [OrdMap.get?_insert_ne hid]
      simp [runRow, hne]
  · change List.find? _ (database.runs ++ [_]) = _
    rw [List.find?_append]
    change (database.selectSubmission key.asStr).or _ = _
    rw [h.submission]
    by_cases hk : key = request.submissionKey
    · subst hk
      rw [hkey, OrdMap.get?_insert_self]
      simp [runRow, newRun, OrdMap.get?_insert_self]
    · have hne : ¬ request.submissionKey.asStr = key.asStr :=
        fun heq => hk (OpaqueId.asStr_inj.mp heq).symm
      rw [OrdMap.get?_insert_ne hk]
      cases hid : OrdMap.get? state.submissions key with
      | none => simp [runRow, newRun, hne]
      | some id =>
        obtain ⟨run, hfound, -⟩ := (hcoherent.submitted _ _).mp hid
        have hdiff : id ≠ request.runId := by
          rintro rfl
          rw [hrun] at hfound
          cases hfound
        simp only [Option.bind_some, OrdMap.get?_insert_ne hdiff, hfound, Option.map_some,
          Option.some_or]
  · change ((database.runs ++ [_]).map RunRow.runId).Nodup
    rw [List.map_append, List.nodup_append]
    refine ⟨h.distinct, by simp, fun a ha b hb => ?_⟩
    obtain ⟨row, hrow, rfl⟩ := List.mem_map.mp ha
    cases List.mem_singleton.mp hb
    exact hnoRun row hrow
  · change ((database.runs ++ [_]).map RunRow.submissionKey).Nodup
    rw [List.map_append, List.nodup_append]
    refine ⟨h.keys, by simp, fun a ha b hb => ?_⟩
    obtain ⟨row, hrow, rfl⟩ := List.mem_map.mp ha
    cases List.mem_singleton.mp hb
    exact hnoKey row hrow
  · change eventsOf codec database id = _
    rw [h.events]
    by_cases hid : id = request.runId
    · subst hid
      rw [hrun, OrdMap.get?_insert_self]
      rfl
    · rw [OrdMap.get?_insert_ne hid]
  · by_cases hid : id = request.runId
    · subst hid
      rw [OrdMap.get?_insert_self] at hother
      cases hother
      exact Nat.pow_pos (by decide)
    · rw [OrdMap.get?_insert_ne hid] at hother
      exact h.short id other hother

/-- Creating or finding a run, on both stores. -/
theorem createOrGet_simulates [DecidableEq Program] (hread : Readable codec state)
    (hcoherent : state.Coherent codec.wire) (h : Simulates codec state database)
    (request : CreateRun Program) :
    Agree (FakeRunLedger.createOrGet codec request state).1
      (createOrGet codec request database).1 ∧
    Simulates codec (FakeRunLedger.createOrGet codec request state).2
      (createOrGet codec request database).2 := by
  unfold FakeRunLedger.createOrGet createOrGet
  split
  · exact ⟨rfl, h⟩
  · unfold withTransaction existingSubmission
    beta_reduce
    rw [loadBySubmission_eq hread hcoherent h]
    cases hkey : OrdMap.get? state.submissions request.submissionKey with
    | some existingId =>
      obtain ⟨run, hrun, -⟩ := (hcoherent.submitted _ _).mp hkey
      simp only [bind, Except.bind, Option.bind_some, hrun, Option.map_some]
      split
      · exact ⟨rfl, h⟩
      · exact ⟨rfl, h⟩
    | none =>
      simp only [bind, Except.bind, Option.bind_none, requireUnusedRunId,
        loadById_eq hread hcoherent h, OrdMap.contains]
      rcases (OrdMap.get? state.runs request.runId).eq_none_or_eq_some with hrun | ⟨run, hrun⟩
      · obtain ⟨hinsert, hsimulates⟩ := h.create hcoherent hkey hrun
        have hnew : insertNewRun codec request database = .ok (newRun request,
            { database with
              runs := database.runs ++ [runRow codec request.runId ⟨newRun request, []⟩] }) := by
          change (database.insertRun (runRow codec request.runId ⟨newRun request, []⟩) >>=
            fun database => _) = _
          rw [hinsert]
          rfl
        simp only [hrun, hnew, Option.map_none]
        exact ⟨rfl, hsimulates⟩
      · simp only [hrun, Option.map_some]
        exact ⟨rfl, h⟩

end

end SqliteRunLedger

end Zeroshot.Ledger
