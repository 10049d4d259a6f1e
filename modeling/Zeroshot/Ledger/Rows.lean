import Zeroshot.Ledger.Sourcing
import Zeroshot.Ledger.Sqlite
import Zeroshot.Lib.Paging

set_option autoImplicit false

/-!
# Rows of the durable ledger

What the two tables hold after any calls, whatever the encoding reads back (`Journaled`): every run
has its events in rows numbered from one up to its cursor, and every row fits a page. So the row
scan of a page is a `page` of the events the rows are read as (`readPage_eq`).
-/

namespace Zeroshot.Ledger

variable {Program : Type}

namespace SqliteRunLedger

/-! ## Consecutive rows -/

/-- The rows are numbered `n + 1`, `n + 2`, and so on. -/
def Consecutive {Text : Type} : Nat → List (EventRow Text) → Prop
  | _, [] => True
  | n, row :: rows => row.sequence = (n + 1 : Nat) ∧ Consecutive (n + 1) rows

section

variable {Text : Type} {n : Nat} {rows more : List (EventRow Text)}

theorem Consecutive.append (h : Consecutive n rows) (h' : Consecutive (n + rows.length) more) :
    Consecutive n (rows ++ more) := by
  induction rows generalizing n with
  | nil => exact h'
  | cons row rows ih =>
    refine ⟨h.1, ih h.2 ?_⟩
    rwa [List.length_cons, show n + (rows.length + 1) = n + 1 + rows.length by omega] at h'

theorem Consecutive.bounds (h : Consecutive n rows) {row : EventRow Text} (hrow : row ∈ rows) :
    (n : Int) < row.sequence ∧ row.sequence ≤ n + rows.length := by
  induction rows generalizing n with
  | nil => cases hrow
  | cons first rows ih =>
    rw [List.length_cons]
    rcases List.mem_cons.mp hrow with rfl | hrow
    · have hfirst := h.1
      push_cast at hfirst ⊢
      omega
    · have hrest := ih h.2 hrow
      push_cast at hrest ⊢
      omega

theorem Consecutive.pairwise (h : Consecutive n rows) : rows.Pairwise Database.bySequence := by
  induction rows generalizing n with
  | nil => exact List.Pairwise.nil
  | cons row rows ih =>
    refine List.pairwise_cons.mpr ⟨fun other hother => ?_, ih h.2⟩
    have hrow := h.1
    have hother := (h.2.bounds hother).1
    rw [Database.bySequence, hrow]
    exact hother.le

/-- The rows after a number are the rest of the rows. -/
theorem Consecutive.filter (h : Consecutive n rows) (k : Nat) :
    rows.filter (fun row => ((n + k : Nat) : Int) < row.sequence) = rows.drop k := by
  induction rows generalizing n k with
  | nil => simp
  | cons row rows ih =>
    cases k with
    | zero =>
      rw [List.drop_zero, Nat.add_zero, List.filter_eq_self]
      exact fun other hother => decide_eq_true (h.bounds hother).1
    | succ k =>
      have hskip : ¬ ((n + (k + 1) : Nat) : Int) < row.sequence := by
        rw [h.1]
        push_cast
        omega
      rw [List.filter_cons, if_neg (by rwa [decide_eq_true_eq]), List.drop_succ_cons,
        show n + (k + 1) = n + 1 + k by omega, ih h.2]

end

variable {codec : Codec Program}

/-! ## Reading rows -/

variable (codec) in
/-- The event rows of a run, in the order they were inserted. -/
def eventsOf (database : Database codec.Text) (runId : RunId) : List (EventRow codec.Text) :=
  database.events.filter fun row => row.runId == runId.asStr

variable (codec) in
/-- The events of a run, as a reader decodes them. -/
def storedEvents (database : Database codec.Text) (runId : RunId) :
    Except RunLedgerError (List StoredRunEvent) :=
  (eventsOf codec database runId).mapM (decodeReplayEvent codec)

/-- The row is read as the event, and its text has the size of the event and fits a page. -/
structure Reads (size : StoredRunEvent → Nat) (row : EventRow codec.Text)
    (stored : StoredRunEvent) : Prop where
  decoded : decodeReplayEvent codec row = .ok stored
  sized : size stored = codec.bytes row.eventJson
  fits : codec.bytes row.eventJson ≤ maxReplayBytes

theorem decodeReplayEvent_cursor {row : EventRow codec.Text} {stored : StoredRunEvent}
    (h : decodeReplayEvent codec row = .ok stored) :
    stored.cursor = cursorFor row.sequence.toNat := by
  unfold decodeReplayEvent at h
  split at h
  · cases h
  · split at h
    · cases h
    · cases h
      rfl

theorem readRows_eq {size : StoredRunEvent → Nat} {rows : List (EventRow codec.Text)}
    {events : List StoredRunEvent} (h : List.Forall₂ (Reads size) rows events) (used : Nat) :
    readRows codec rows used = .ok (fill size maxReplayBytes events used) := by
  induction h generalizing used with
  | nil => rfl
  | cons hread _ ih =>
    simp only [readRows, fill, hread.sized, if_neg (not_lt.mpr hread.fits)]
    split
    · rfl
    · rw [hread.decoded, ih]
      rfl

theorem cursors_eq {n : Nat} {rows : List (EventRow codec.Text)} {events : List StoredRunEvent}
    (hrows : Consecutive n rows)
    (h : List.Forall₂ (fun row stored => decodeReplayEvent codec row = .ok stored) rows events) :
    events.map StoredRunEvent.cursor = cursorsFrom n events.length := by
  induction h generalizing n with
  | nil => rfl
  | cons hdecoded _ ih =>
    rw [List.map_cons, List.length_cons, cursorsFrom, ih hrows.2,
      decodeReplayEvent_cursor hdecoded, hrows.1, Int.toNat_natCast]

/-- **What `read_page` returns.** -/
theorem readPage_eq {size : StoredRunEvent → Nat} {database : Database codec.Text} {runId : RunId}
    {events : List StoredRunEvent} (hrows : Consecutive 0 (eventsOf codec database runId))
    (h : List.Forall₂ (Reads size) (eventsOf codec database runId) events) (k : Nat) :
    readPage codec database runId k =
      .ok (page size maxReplayBytes maxReplayEvents (events.drop k)) := by
  have hfilter := hrows.filter k
  rw [Nat.zero_add, eventsOf, List.filter_filter] at hfilter
  have hafter : database.eventsAfter runId.asStr k = (eventsOf codec database runId).drop k := by
    rw [Database.eventsAfter, eventsOf, ← hfilter]
    have hsame : (fun row : EventRow codec.Text =>
        row.runId == runId.asStr && decide ((k : Int) < row.sequence)) =
          fun row => decide ((k : Int) < row.sequence) && row.runId == runId.asStr := by
      funext row
      exact Bool.and_comm _ _
    rw [hsame, hfilter]
    exact (hrows.pairwise.drop).insertionSort_eq
  rw [readPage, Database.selectEvents, hafter, page]
  exact readRows_eq (List.forall₂_take _ (List.forall₂_drop _ h)) 0

theorem forall₂_of_mapM {α β : Type} {f : α → Except RunLedgerError β} {as : List α} {bs : List β}
    (h : as.mapM f = .ok bs) : List.Forall₂ (fun a b => f a = .ok b) as bs := by
  induction as generalizing bs with
  | nil =>
    cases h
    exact .nil
  | cons a as ih =>
    rw [List.mapM_cons] at h
    obtain ⟨b, hb, h⟩ := except_bind_eq_ok.mp h
    obtain ⟨rest, hrest, h⟩ := except_bind_eq_ok.mp h
    cases h
    exact .cons hb (ih hrest)

theorem mapM_of_forall₂ {α β : Type} {f : α → Except RunLedgerError β} {as : List α} {bs : List β}
    (h : List.Forall₂ (fun a b => f a = .ok b) as bs) : as.mapM f = .ok bs := by
  induction h with
  | nil => rfl
  | cons hab _ ih =>
    rw [List.mapM_cons, hab]
    simp only [ih]
    rfl

/-! ## The invariant -/

/-- Every run has its events in rows numbered from one up to its cursor, there are no other events,
and every event fits a page. -/
structure Journaled (database : Database codec.Text) : Prop where
  distinct : (database.runs.map RunRow.runId).Nodup
  run : ∀ row ∈ database.runs, Consecutive 0 (eventsOf codec database ⟨row.runId⟩) ∧
    row.cursor = (eventsOf codec database ⟨row.runId⟩).length ∧
    (eventsOf codec database ⟨row.runId⟩).length < 2 ^ 63
  known : ∀ row ∈ database.events, ∃ run ∈ database.runs, run.runId = row.runId
  fits : ∀ row ∈ database.events, codec.bytes row.eventJson ≤ maxReplayBytes

theorem journaled_empty : @Journaled Program codec Database.empty where
  distinct := List.nodup_nil
  run _ h := nomatch h
  known _ h := nomatch h
  fits _ h := nomatch h

/-! ### Loading -/

theorem decodeStored_eq_ok {runId : RunId} {cursor : Int} {json : codec.Text}
    {stored : StoredRun Program} (h : decodeStored codec runId cursor json = .ok stored) :
    ∃ sequence : Nat, cursorSequence stored.snapshot.cursor = .ok sequence ∧ cursor = sequence := by
  unfold decodeStored at h
  split at h
  · cases h
  · split at h
    · cases h
    · split at h
      · cases h
      · obtain ⟨sequence, hsequence, h⟩ := except_bind_eq_ok.mp h
        split at h
        · cases h
        · rename_i hcursor
          cases h
          exact ⟨sequence, hsequence, (not_not.mp hcursor).symm⟩

theorem loadById_eq_some {database : Database codec.Text} {runId : RunId}
    {stored : StoredRun Program} (h : loadById codec database runId = .ok (some stored)) :
    ∃ row ∈ database.runs, row.runId = runId.asStr ∧
      ∃ sequence : Nat, cursorSequence stored.snapshot.cursor = .ok sequence ∧
        row.cursor = sequence := by
  unfold loadById at h
  split at h
  · cases h
  · rename_i row hselect
    cases hdecode : decodeStored codec runId row.cursor row.storedJson with
    | error e =>
      rw [hdecode] at h
      cases h
    | ok decoded =>
      rw [hdecode] at h
      cases h
      have hid := List.find?_some (p := fun row : RunRow codec.Text => row.runId == runId.asStr)
        hselect
      exact ⟨row, List.mem_of_find?_eq_some hselect, beq_iff_eq.mp hid,
        decodeStored_eq_ok hdecode⟩

theorem loadExisting_eq_ok {database : Database codec.Text} {runId : RunId}
    {stored : StoredRun Program} (h : loadExisting codec database runId = .ok stored) :
    loadById codec database runId = .ok (some stored) := by
  obtain ⟨found, hfound, h⟩ := except_bind_eq_ok.mp h
  cases found with
  | none => cases h
  | some found =>
    cases h
    exact hfound

/-- The position of a run that is read is the number of its events. -/
theorem Journaled.sequence {database : Database codec.Text} (h : Journaled database)
    {runId : RunId} {stored : StoredRun Program}
    (hstored : loadById codec database runId = .ok (some stored)) :
    Consecutive 0 (eventsOf codec database runId) ∧
      cursorSequence stored.snapshot.cursor = .ok (eventsOf codec database runId).length ∧
      (eventsOf codec database runId).length < 2 ^ 63 := by
  obtain ⟨row, hrow, hid, sequence, hsequence, hcursor⟩ := loadById_eq_some hstored
  obtain ⟨hconsecutive, hlength, hshort⟩ := h.run row hrow
  rw [hid] at hconsecutive hlength
  have hlength : sequence = (eventsOf codec database runId).length := by
    rw [hcursor] at hlength
    exact_mod_cast hlength
  rw [hid] at hshort
  exact ⟨hconsecutive, hlength ▸ hsequence, hshort⟩

/-! ### Creating -/

theorem insertRun_eq_ok {Text : Type} {row : RunRow Text} {database database' : Database Text}
    (h : database.insertRun row = .ok database') :
    (∀ other ∈ database.runs, other.runId ≠ row.runId) ∧
      database' = { database with runs := database.runs ++ [row] } := by
  unfold Database.insertRun at h
  split at h
  · cases h
  · rename_i hfree
    cases h
    refine ⟨fun other hother heq => hfree (List.any_eq_true.mpr ⟨other, hother, ?_⟩), rfl⟩
    rw [heq, beq_self_eq_true, Bool.true_or]

theorem Journaled.insertRun {database database' : Database codec.Text} (h : Journaled database)
    {row : RunRow codec.Text} (hcursor : row.cursor = 0)
    (hinsert : database.insertRun row = .ok database') : Journaled database' := by
  obtain ⟨hfresh, rfl⟩ := insertRun_eq_ok hinsert
  refine ⟨?_, fun other hother => ?_, fun event hevent => ?_, h.fits⟩
  · rw [List.map_append, List.nodup_append]
    refine ⟨h.distinct, by simp, fun a ha b hb => ?_⟩
    obtain ⟨other, hother, rfl⟩ := List.mem_map.mp ha
    cases List.mem_singleton.mp hb
    exact hfresh other hother
  · rcases List.mem_append.mp hother with hother | hother
    · exact h.run other hother
    · cases List.mem_singleton.mp hother
      have hnone : eventsOf codec database ⟨row.runId⟩ = [] := by
        rw [eventsOf, List.filter_eq_nil_iff]
        intro event hevent heq
        obtain ⟨run, hrun, hid⟩ := h.known event hevent
        exact hfresh run hrun (hid.trans (beq_iff_eq.mp heq))
      have hnone : eventsOf codec { database with runs := database.runs ++ [row] } ⟨row.runId⟩ =
        [] := hnone
      rw [hnone, hcursor]
      exact ⟨trivial, rfl, by simp only [List.length_nil]; omega⟩
  · obtain ⟨run, hrun, hid⟩ := h.known event hevent
    exact ⟨run, List.mem_append_left _ hrun, hid⟩

/-! ### Appending -/

/-- Every accepted event fits an empty page. -/
theorem eventLimit_le (event : RunEvent) : eventLimit event ≤ maxReplayBytes := by
  have hdouble : ∀ n : Nat, n ≤ 2 * n + 1024 := fun n => by omega
  have hbytes : maxEventBytes ≤ maxReplayBytes := hdouble maxEventBytes
  cases event with
  | priorExecution execution => simp only [eventLimit, maxReplayBytes, le_refl]
  | _ => exact hbytes

theorem encodeEvent_of_valid {event : RunEvent} (h : validateEvent codec.wire event = true) :
    ∃ text, codec.encodeEvent event = some text ∧ codec.bytes text ≤ maxReplayBytes := by
  unfold validateEvent at h
  cases hencode : codec.encodeEvent event with
  | none =>
    simp only [Codec.wire, hencode, Option.map_none] at h
    cases h
  | some text =>
    simp only [Codec.wire, hencode, Option.map_some, decide_eq_true_eq] at h
    exact ⟨text, rfl, h.trans (eventLimit_le event)⟩

variable (codec) in
def addEvents (database : Database codec.Text) (rows : List (EventRow codec.Text)) :
    Database codec.Text :=
  { database with events := database.events ++ rows }

theorem nextSequence_eq_ok {n m : Nat} (h : nextSequence n = .ok m) : m = n + 1 ∧ m < 2 ^ 63 := by
  unfold nextSequence at h
  split at h
  · rename_i hsmall
    cases h
    exact ⟨rfl, hsmall.2⟩
  · cases h

/-- The rows a batch adds to a run after row `n`. -/
structure Added (runId : RunId) (n : Nat) (rows : List (EventRow codec.Text)) : Prop where
  consecutive : Consecutive n rows
  own : ∀ row ∈ rows, row.runId = runId.asStr
  fits : ∀ row ∈ rows, codec.bytes row.eventJson ≤ maxReplayBytes
  short : rows ≠ [] → n + rows.length < 2 ^ 63

theorem oneEvent_eq_ok {runId : RunId} {event : RunEvent} {pending pending' : PendingAppend codec}
    {stored : StoredRunEvent} (h : oneEvent codec runId event pending = .ok (stored, pending')) :
    ∃ text, pending'.database =
        addEvents codec pending.database [⟨runId.asStr, (pending.sequence + 1 : Nat), text⟩] ∧
      codec.bytes text ≤ maxReplayBytes ∧ pending'.sequence = pending.sequence + 1 ∧
      pending.sequence + 1 < 2 ^ 63 := by
  simp only [oneEvent, except_bind_eq_ok] at h
  obtain ⟨sequence, hsequence, h⟩ := h
  obtain ⟨rfl, hshort⟩ := nextSequence_eq_ok hsequence
  split at h
  · cases h
  · rename_i u snapshot happly
    obtain ⟨database, hinsert, h⟩ := except_bind_eq_ok.mp h
    cases h
    obtain ⟨-, hvalid, -⟩ := applyEvent_eq_ok happly
    obtain ⟨text, hencode, hbytes⟩ := encodeEvent_of_valid hvalid
    refine ⟨text, ?_, hbytes, rfl, hshort⟩
    simp only [insertEvent, hencode, Database.insertEvent] at hinsert
    split at hinsert
    · cases hinsert
    · split at hinsert
      · cases hinsert
        rfl
      · cases hinsert

theorem appendEvents_eq_ok {runId : RunId} {events : List RunEvent}
    {pending pending' : PendingAppend codec} {stored : List StoredRunEvent}
    (h : appendEvents codec runId events pending = .ok (stored, pending')) :
    ∃ rows, pending'.database = addEvents codec pending.database rows ∧
      Added runId pending.sequence rows ∧ pending'.sequence = pending.sequence + rows.length := by
  induction events generalizing pending stored with
  | nil =>
    cases h
    exact ⟨[], by rw [addEvents, List.append_nil],
      ⟨trivial, fun _ h => (nomatch h), fun _ h => (nomatch h), fun h => absurd rfl h⟩, rfl⟩
  | cons event events ih =>
    simp only [appendEvents, except_bind_eq_ok] at h
    obtain ⟨⟨first, middle⟩, hfirst, ⟨rest, last⟩, hrest, h⟩ := h
    cases h
    obtain ⟨text, hdatabase, hbytes, hsequence, hshort⟩ := oneEvent_eq_ok hfirst
    obtain ⟨rows, hdatabase', hadded, hsequence'⟩ := ih hrest
    rw [hsequence] at hadded hsequence'
    refine ⟨⟨runId.asStr, (pending.sequence + 1 : Nat), text⟩ :: rows, ?_,
      ⟨⟨rfl, hadded.consecutive⟩, ?_, ?_, fun _ => ?_⟩, ?_⟩
    · rw [hdatabase', hdatabase, addEvents, addEvents, List.append_assoc, List.singleton_append]
      rfl
    · exact List.forall_mem_cons.mpr ⟨rfl, hadded.own⟩
    · exact List.forall_mem_cons.mpr ⟨hbytes, hadded.fits⟩
    · cases rows with
      | nil => exact hshort
      | cons row rows =>
        have := hadded.short (List.cons_ne_nil _ _)
        simp only [List.length_cons] at this ⊢
        omega
    · rw [hsequence', List.length_cons]
      omega

/-- The batch of a run is added and its row updated. -/
theorem Journaled.update {database : Database codec.Text} (h : Journaled database) {runId : RunId}
    {rows : List (EventRow codec.Text)} {stored : StoredRun Program}
    (hstored : loadById codec database runId = .ok (some stored))
    (hadded : Added runId (eventsOf codec database runId).length rows) (json : codec.Text) :
    Journaled ((addEvents codec database rows).updateRun runId.asStr
      ((eventsOf codec database runId).length + rows.length : Nat) json).1 := by
  obtain ⟨old, hold, hid, -⟩ := loadById_eq_some hstored
  obtain ⟨hconsecutive, -, hshort⟩ := h.sequence hstored
  have hkeeps : ∀ row : RunRow codec.Text, (if row.runId = runId.asStr then
      { row with
        cursor := ((eventsOf codec database runId).length + rows.length : Nat)
        storedJson := json }
      else row).runId = row.runId := by
    intro row
    split <;> rfl
  refine ⟨?_, fun row hrow => ?_, fun event hevent => ?_, fun event hevent => ?_⟩
  · change ((database.runs.map _).map RunRow.runId).Nodup
    rw [List.map_map, show RunRow.runId ∘ _ = RunRow.runId from funext hkeeps]
    exact h.distinct
  · obtain ⟨row, hmem, rfl⟩ := List.mem_map.mp hrow
    rw [hkeeps]
    change Consecutive 0 ((database.events ++ rows).filter _) ∧
      _ = (((database.events ++ rows).filter _).length : Int) ∧
      ((database.events ++ rows).filter _).length < 2 ^ 63
    rw [List.filter_append]
    by_cases hrun : row.runId = runId.asStr
    · have hown : rows.filter (fun event => event.runId == row.runId) = rows :=
        List.filter_eq_self.mpr fun event hevent =>
          beq_iff_eq.mpr ((hadded.own event hevent).trans hrun.symm)
      have hlength : (eventsOf codec database runId).length + rows.length < 2 ^ 63 := by
        cases rows with
        | nil => exact hshort
        | cons row rows => exact hadded.short (List.cons_ne_nil _ _)
      rw [hown, if_pos hrun, hrun]
      change Consecutive 0 (eventsOf codec database runId ++ rows) ∧
        _ = ((eventsOf codec database runId ++ rows).length : Int) ∧
        (eventsOf codec database runId ++ rows).length < 2 ^ 63
      rw [List.length_append]
      refine ⟨hconsecutive.append ?_, rfl, hlength⟩
      rw [Nat.zero_add]
      exact hadded.consecutive
    · have hother : rows.filter (fun event => event.runId == row.runId) = [] :=
        List.filter_eq_nil_iff.mpr fun event hevent heq =>
          hrun ((beq_iff_eq.mp heq).symm.trans (hadded.own event hevent))
      rw [hother, List.append_nil, if_neg hrun]
      exact h.run row hmem
  · have hruns : ∃ run ∈ database.runs, run.runId = event.runId := by
      rcases List.mem_append.mp hevent with hevent | hevent
      · exact h.known event hevent
      · exact ⟨old, hold, hid.trans (hadded.own event hevent).symm⟩
    obtain ⟨run, hrun, hsame⟩ := hruns
    exact ⟨_, List.mem_map_of_mem hrun, (hkeeps run).trans hsame⟩
  · rcases List.mem_append.mp hevent with hevent | hevent
    · exact h.fits event hevent
    · exact hadded.fits event hevent

theorem Journaled.append {database database' : Database codec.Text} (h : Journaled database)
    {runId : RunId} {events : List RunEvent} {result : AppendResult}
    (happend : appendTransaction codec runId events database = .ok (result, database')) :
    Journaled database' := by
  unfold appendTransaction at happend
  split at happend
  · cases happend
  · simp only [except_bind_eq_ok] at happend
    obtain ⟨stored, hstored, sequence, hsequence, ⟨appended, pending⟩, hevents, updated, hupdated,
      happend⟩ := happend
    cases happend
    have hstored := loadExisting_eq_ok hstored
    obtain ⟨-, hlength, -⟩ := h.sequence hstored
    rw [hsequence] at hlength
    cases hlength
    obtain ⟨rows, hdatabase, hadded, hlast⟩ := appendEvents_eq_ok hevents
    simp only [updateStoredRun] at hupdated
    split at hupdated
    · cases hupdated
    · cases hupdated
      rw [hdatabase, hlast]
      exact h.update hstored hadded _

/-! ### Calls -/

theorem withTransaction_invariant {α : Type} {P : Database codec.Text → Prop}
    {database : Database codec.Text}
    {operation : Database codec.Text → Except RunLedgerError (α × Database codec.Text)}
    (h : P database)
    (hoperation : ∀ result database', operation database = .ok (result, database') → P database') :
    P (withTransaction codec database operation).2 := by
  unfold withTransaction
  split
  · exact hoperation _ _ ‹_›
  · exact h

theorem Journaled.createOrGet [DecidableEq Program] {database : Database codec.Text}
    (h : Journaled database) (request : CreateRun Program) :
    Journaled (createOrGet codec request database).2 := by
  unfold SqliteRunLedger.createOrGet
  split
  · exact h
  · refine withTransaction_invariant h fun outcome database' houtcome => ?_
    obtain ⟨existing, -, houtcome⟩ := except_bind_eq_ok.mp houtcome
    cases existing with
    | some existing =>
      cases houtcome
      exact h
    | none =>
      simp only [insertNewRun, except_bind_eq_ok] at houtcome
      obtain ⟨⟨stored, inserted⟩, ⟨database'', hinsert, hr⟩, houtcome⟩ := houtcome
      cases hr
      cases houtcome
      exact h.insertRun rfl hinsert

/-- **Every call keeps the rows in order.** -/
theorem step_journaled [DecidableEq Program] (call : Call Program)
    {database : Database codec.Text} (h : Journaled database) :
    Journaled (step codec call database).2 := by
  cases call with
  | createOrGet request => exact h.createOrGet request
  | append runId events =>
    exact withTransaction_invariant h fun _ _ happend => h.append happend
  | requestForceStop runId =>
    change Journaled (requestForceStop codec runId database).2
    unfold requestForceStop
    refine withTransaction_invariant h fun result database' hstop => ?_
    obtain ⟨stored, -, hstop⟩ := except_bind_eq_ok.mp hstop
    split at hstop
    · cases hstop
      exact h
    · exact h.append hstop
  | get | getBySubmissionKey | snapshotAndTail => exact h

theorem runCalls_journaled [DecidableEq Program] (calls : List (Call Program)) :
    Journaled (runCalls (step codec) calls .empty).2 :=
  runCalls_invariant (fun call _ => step_journaled call) calls journaled_empty

/-! ## Stored events -/

variable (codec) in
/-- The encoded size of a stored event of a run: that of the row with its cursor. -/
def storedBytes (database : Database codec.Text) (runId : RunId) (stored : StoredRunEvent) : Nat :=
  ((eventsOf codec database runId).find? fun row =>
    cursorFor row.sequence.toNat == stored.cursor).elim 0 fun row => codec.bytes row.eventJson

theorem find?_cursor {n : Nat} {rows : List (EventRow codec.Text)} (h : Consecutive n rows)
    {row : EventRow codec.Text} (hrow : row ∈ rows) :
    rows.find? (fun other => cursorFor other.sequence.toNat == cursorFor row.sequence.toNat) =
      some row := by
  induction rows generalizing n with
  | nil => cases hrow
  | cons first rows ih =>
    rcases List.mem_cons.mp hrow with rfl | hrow
    · exact List.find?_cons_of_pos (beq_self_eq_true _)
    · have hfirst := h.1
      have hlater := (h.2.bounds hrow).1
      have hne : ¬ (cursorFor first.sequence.toNat == cursorFor row.sequence.toNat) = true := by
        intro heq
        have heq := cursorFor_inj (beq_iff_eq.mp heq)
        omega
      simp only [List.find?_cons, Bool.eq_false_iff.mpr hne]
      exact ih h.2 hrow

theorem storedBytes_eq {database : Database codec.Text} {runId : RunId}
    (hrows : Consecutive 0 (eventsOf codec database runId)) {row : EventRow codec.Text}
    (hrow : row ∈ eventsOf codec database runId) {stored : StoredRunEvent}
    (hdecoded : decodeReplayEvent codec row = .ok stored) :
    storedBytes codec database runId stored = codec.bytes row.eventJson := by
  rw [storedBytes, decodeReplayEvent_cursor hdecoded, find?_cursor hrows hrow]
  rfl

/-- The events of a run, read from its rows. -/
theorem Journaled.reads {database : Database codec.Text} (h : Journaled database) {runId : RunId}
    (hrows : Consecutive 0 (eventsOf codec database runId)) {events : List StoredRunEvent}
    (hevents : storedEvents codec database runId = .ok events) :
    List.Forall₂ (Reads (storedBytes codec database runId)) (eventsOf codec database runId)
      events := by
  have hmem : List.Forall₂ (fun row stored => row ∈ eventsOf codec database runId ∧
      decodeReplayEvent codec row = .ok stored) (eventsOf codec database runId) events :=
    (List.forall₂_and_left _ _).mpr ⟨fun _ hrow => hrow, forall₂_of_mapM hevents⟩
  refine hmem.imp fun row stored hread => ⟨hread.2, storedBytes_eq hrows hread.1 hread.2, ?_⟩
  exact h.fits row (List.mem_filter.mp hread.1).1

end SqliteRunLedger

end Zeroshot.Ledger
