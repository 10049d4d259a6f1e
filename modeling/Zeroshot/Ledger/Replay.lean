import Zeroshot.Ledger.Equivalence

set_option autoImplicit false

/-!
# Resuming a run

A consumer reads a run page after page, each time after the cursor of the last event it was given.
On a store that nobody changes meanwhile it gets every event once, in order (`Replays`).

The durable adapter reads the stored run and the page of events with two statements that are not in
one transaction. `snapshotPage_oneState_iff` says which commits between them a reader notices.
-/

namespace Zeroshot.Ledger

variable {Program : Type}

/-! ## Pages of a journal -/

/-- The answers a reader of the run gets. -/
def Serves (size : StoredRunEvent → Nat) (snapshot : RunSnapshot) (events : List StoredRunEvent)
    (read : Option Cursor → Except RunLedgerError SnapshotAndTail) : Prop :=
  ∀ after, read after = (FakeRunLedger.requested after).bind fun k =>
    if events.length < k then .error .cursorAhead
    else .ok ⟨snapshot, pageAfter size events k⟩

/-- The events are numbered from one up to the cursor of the run, and each fits a page. -/
structure Listed (size : StoredRunEvent → Nat) (snapshot : RunSnapshot)
    (events : List StoredRunEvent) : Prop where
  cursors : events.map StoredRunEvent.cursor = cursorsFrom 0 events.length
  sequence : cursorSequence snapshot.cursor = .ok events.length
  bounded : events.length < 2 ^ 64
  fits : ∀ e ∈ events, size e ≤ maxReplayBytes

theorem Sourced.listed {codec : Codec Program} {seed snapshot : RunSnapshot}
    {events : List StoredRunEvent} (h : Sourced codec.wire seed snapshot events) :
    Listed (eventSize codec.wire) snapshot events :=
  ⟨h.cursors, h.sequence, h.bounded, fun e he => eventSize_le (h.valid e he)⟩

theorem pageAfter_isPrefix (size : StoredRunEvent → Nat) (events : List StoredRunEvent)
    (k : Nat) : pageAfter size events k <+: events.drop k :=
  page_isPrefix _ _

section

variable {size : StoredRunEvent → Nat} {events : List StoredRunEvent} {k : Nat}

theorem pageAfter_ne_nil (hfits : ∀ e ∈ events, size e ≤ maxReplayBytes)
    (hk : k < events.length) : pageAfter size events k ≠ [] := by
  rw [pageAfter, List.drop_eq_getElem_cons hk]
  exact page_ne_nil (by decide) (hfits _ (List.getElem_mem hk))

theorem cursors_of_isPrefix {front rest : List StoredRunEvent} {n : Nat} (h : front <+: rest)
    (hrest : rest.map StoredRunEvent.cursor = cursorsFrom n rest.length) :
    front.map StoredRunEvent.cursor = cursorsFrom n front.length := by
  rw [List.prefix_iff_eq_take.mp h]
  exact SqliteRunLedger.cursors_take hrest _

/-- The cursor a page ends with. -/
theorem pageAfter_last {last : StoredRunEvent}
    (hcursors : events.map StoredRunEvent.cursor = cursorsFrom 0 events.length)
    (hlast : (pageAfter size events k).getLast? = some last) :
    last.cursor = cursorFor (k + (pageAfter size events k).length) := by
  have hdrop := SqliteRunLedger.cursors_drop hcursors k
  rw [Nat.zero_add] at hdrop
  have hpage := cursors_of_isPrefix (pageAfter_isPrefix size events k) hdrop
  have hget := congrArg List.getLast? hpage
  rw [List.getLast?_map, hlast, Option.map_some] at hget
  cases hlength : (pageAfter size events k).length with
  | zero =>
    rw [List.length_eq_zero_iff.mp hlength] at hlast
    cases hlast
  | succ m =>
    rw [hlength, cursorsFrom_add k m 1, cursorsFrom, cursorsFrom, List.getLast?_concat] at hget
    rw [Option.some.inj hget, Nat.add_assoc]

end

/-! ## Following -/

/-- Read page after page until one is empty: the pages, and the cursor reached. -/
def follow (read : Option Cursor → Except RunLedgerError SnapshotAndTail) :
    Nat → Option Cursor → Option (List (List StoredRunEvent) × Option Cursor)
  | 0, _ => none
  | fuel + 1, after =>
    match read after with
    | .error _ => none
    | .ok tail =>
      match tail.events.getLast? with
      | none => some ([], after)
      | some last =>
        (follow read fuel (some last.cursor)).map fun rest => (tail.events :: rest.1, rest.2)

/-- A page within the bounds. -/
def Bounded (size : StoredRunEvent → Nat) (page : List StoredRunEvent) : Prop :=
  page.length ≤ maxReplayEvents ∧ totalSize size page ≤ maxReplayBytes

/-- Resuming after event `k`, page after page, gives the rest of the journal. -/
structure Replays (size : StoredRunEvent → Nat) (snapshot : RunSnapshot)
    (events : List StoredRunEvent)
    (read : Option Cursor → Except RunLedgerError SnapshotAndTail) (after : Option Cursor)
    (k : Nat) : Prop where
  page : ∃ tail, read after = .ok tail ∧ tail.snapshot = snapshot ∧ Bounded size tail.events ∧
    (k < events.length → tail.events ≠ [])
  complete : ∀ fuel, events.length - k < fuel → ∃ pages last,
    follow read fuel after = some (pages, last) ∧ pages.flatten = events.drop k ∧
    FakeRunLedger.requested last = cursorSequence snapshot.cursor ∧
    ∀ page ∈ pages, page ≠ [] ∧ Bounded size page

theorem pageAfter_bounded (size : StoredRunEvent → Nat) (events : List StoredRunEvent) (k : Nat) :
    Bounded size (pageAfter size events k) :=
  ⟨page_length _ _, page_total _ _⟩

section

variable {size : StoredRunEvent → Nat} {snapshot : RunSnapshot} {events : List StoredRunEvent}
  {read : Option Cursor → Except RunLedgerError SnapshotAndTail}

theorem Serves.read_eq (hserves : Serves size snapshot events read) {after : Option Cursor}
    {k : Nat} (hafter : FakeRunLedger.requested after = .ok k) (hk : k ≤ events.length) :
    read after = .ok ⟨snapshot, pageAfter size events k⟩ := by
  rw [hserves after, hafter]
  exact if_neg (by omega)

theorem follow_complete (hserves : Serves size snapshot events read)
    (hlisted : Listed size snapshot events) (fuel : Nat) {after : Option Cursor}
    {k : Nat} (hafter : FakeRunLedger.requested after = .ok k) (hk : k ≤ events.length)
    (hfuel : events.length - k < fuel) :
    ∃ pages last, follow read fuel after = some (pages, last) ∧ pages.flatten = events.drop k ∧
      FakeRunLedger.requested last = cursorSequence snapshot.cursor ∧
      ∀ page ∈ pages, page ≠ [] ∧ Bounded size page := by
  induction fuel generalizing after k with
  | zero => omega
  | succ fuel ih =>
    rw [follow, hserves.read_eq hafter hk]
    cases hlast : (pageAfter size events k).getLast? with
    | none =>
      -- an empty page: there is nothing left
      have hend : k = events.length := by
        by_contra hne
        exact pageAfter_ne_nil hlisted.fits (by omega) (List.getLast?_eq_none_iff.mp hlast)
      refine ⟨[], after, by simp only [hlast], ?_, ?_, fun _ h => (nomatch h)⟩
      · rw [hend, List.drop_length, List.flatten_nil]
      · rw [hafter, hlisted.sequence, hend]
    | some last =>
      have hextend := pageAfter_isPrefix size events k
      have hne : pageAfter size events k ≠ [] := by
        intro hnil
        rw [hnil] at hlast
        cases hlast
      have hpositive := List.length_pos_iff.mpr hne
      have hlength := hextend.length_le
      rw [List.length_drop] at hlength
      have hresume : FakeRunLedger.requested (some last.cursor) =
          .ok (k + (pageAfter size events k).length) := by
        have hbounded := hlisted.bounded
        rw [pageAfter_last hlisted.cursors hlast]
        exact cursorSequence_cursorFor (by omega)
      obtain ⟨pages, final, hfollow, hflatten, hfinal, hpages⟩ :=
        ih hresume (by omega) (by omega)
      refine ⟨pageAfter size events k :: pages, final, ?_, ?_, hfinal, ?_⟩
      · simp only [hlast, hfollow, Option.map_some]
      · rw [List.flatten_cons, hflatten, ← List.drop_drop]
        nth_rewrite 1 [List.prefix_iff_eq_take.mp hextend]
        exact List.take_append_drop _ _
      · intro page hpage
        rcases List.mem_cons.mp hpage with rfl | hpage
        · exact ⟨hne, pageAfter_bounded _ _ _⟩
        · exact hpages page hpage

theorem Serves.replays (hserves : Serves size snapshot events read)
    (hlisted : Listed size snapshot events) {after : Option Cursor} {k : Nat}
    (hafter : FakeRunLedger.requested after = .ok k) (hk : k ≤ events.length) :
    Replays size snapshot events read after k where
  page := ⟨_, hserves.read_eq hafter hk, rfl, pageAfter_bounded _ _ _,
    pageAfter_ne_nil hlisted.fits⟩
  complete fuel hfuel := follow_complete hserves hlisted fuel hafter hk hfuel

end

/-- The rows of a run list its events, and the row scan serves them. -/
theorem SqliteRunLedger.Journaled.serves {codec : Codec Program} {database : Database codec.Text}
    (h : SqliteRunLedger.Journaled database) {runId : RunId} {stored : StoredRun Program}
    {events : List StoredRunEvent}
    (hstored : SqliteRunLedger.loadById codec database runId = .ok (some stored))
    (hevents : SqliteRunLedger.storedEvents codec database runId = .ok events) :
    Listed (SqliteRunLedger.storedBytes codec database runId) stored.snapshot events ∧
      Serves (SqliteRunLedger.storedBytes codec database runId) stored.snapshot events
        fun after => SqliteRunLedger.snapshotPage codec database database runId after := by
  obtain ⟨hrows, hsequence, hshort⟩ := h.sequence hstored
  have hreads := h.reads hrows hevents
  rw [hreads.length_eq] at hsequence hshort
  have hexisting : SqliteRunLedger.loadExisting codec database runId = .ok stored := by
    rw [SqliteRunLedger.loadExisting, hstored]
    rfl
  refine ⟨⟨?_, hsequence, by omega, fun e he => ?_⟩, fun after => ?_⟩
  · exact SqliteRunLedger.cursors_eq hrows (hreads.imp fun _ _ hread => hread.decoded)
  · obtain ⟨row, -, hread⟩ := Logged.forall₂_mem_right hreads he
    rw [hread.sized]
    exact hread.fits
  · simp only [SqliteRunLedger.snapshotPage, hexisting]
    change (FakeRunLedger.requested after).bind _ = _
    congr 1
    funext k
    simp only [hsequence, bind, Except.bind, SqliteRunLedger.readPage_eq hrows hreads]
    by_cases hahead : events.length < k
    · rw [if_pos hahead, if_pos hahead]
    · rw [if_neg hahead, if_neg hahead, if_neg (by omega)]
      rfl

/-- **Resuming is complete and always progresses.** For every stored run of either adapter whose
rows can be read, and every cursor that is not ahead of it. -/
theorem resume_complete [DecidableEq Program] (codec : Codec Program)
    (calls : List (Call Program)) (runId : RunId) (after : Option Cursor) (k : Nat)
    (hafter : FakeRunLedger.requested after = .ok k) :
    let fake := (runCalls (FakeRunLedger.step codec) calls .empty).2
    let durable := (runCalls (SqliteRunLedger.step codec) calls .empty).2
    (∀ run, OrdMap.get? fake.runs runId = some run → k ≤ run.events.length →
      Replays (eventSize codec.wire) run.stored.snapshot run.events
        (fun after => FakeRunLedger.snapshotAndTail codec runId after fake) after k) ∧
    ∀ stored events, SqliteRunLedger.loadById codec durable runId = .ok (some stored) →
      SqliteRunLedger.storedEvents codec durable runId = .ok events → k ≤ events.length →
        Replays (SqliteRunLedger.storedBytes codec durable runId) stored.snapshot events
          (fun after => SqliteRunLedger.snapshotPage codec durable durable runId after)
          after k := by
  intro fake durable
  have hempty : FakeRunLedger.Coherent codec.wire (.empty : FakeRunLedger Program) :=
    FakeRunLedger.coherent_empty codec.wire
  have hfake : fake.Coherent codec.wire := (FakeRunLedger.runCalls_extends
    FakeRunLedger.numbering_nextSequence calls hempty).1
  refine ⟨fun run hrun hk => ?_, fun stored events hstored hevents hk => ?_⟩
  · have hserves : Serves (eventSize codec.wire) run.stored.snapshot run.events
        fun after => FakeRunLedger.snapshotAndTail codec runId after fake :=
      FakeRunLedger.snapshotAndTail_eq hfake hrun
    exact hserves.replays (hfake.sourced runId run hrun).listed hafter hk
  · obtain ⟨hlisted, hserves⟩ :=
      (SqliteRunLedger.runCalls_journaled calls).serves hstored hevents
    exact hserves.replays hlisted hafter hk

/-- A run of three events, one of which is read back changed, is resumed after its first event. -/
theorem driftingRun_resumed :
    let durable := (runCalls (SqliteRunLedger.step Sample.floatCodec)
      (Sample.floatCalls Sample.drifting) .empty).2
    ∃ stored events,
      SqliteRunLedger.loadById Sample.floatCodec durable Sample.runId = .ok (some stored) ∧
      events.length = 3 ∧
      Replays (SqliteRunLedger.storedBytes Sample.floatCodec durable Sample.runId)
        stored.snapshot events
        (fun after => SqliteRunLedger.snapshotPage Sample.floatCodec durable durable Sample.runId
          after) (some (cursorFor 1)) 1 := by
  intro durable
  have hafter : FakeRunLedger.requested (some (cursorFor 1)) = .ok 1 := by decide
  obtain ⟨-, hdurable⟩ := resume_complete Sample.floatCodec (Sample.floatCalls Sample.drifting)
    Sample.runId (some (cursorFor 1)) 1 hafter
  have hrun : (SqliteRunLedger.loadById Sample.floatCodec durable Sample.runId).map
        Option.isSome = .ok true ∧
      (SqliteRunLedger.storedEvents Sample.floatCodec durable Sample.runId).map List.length =
        .ok 3 := by decide +kernel
  obtain ⟨found, hfound, hsome⟩ := except_map_eq_ok.mp hrun.1
  obtain ⟨stored, rfl⟩ := Option.isSome_iff_exists.mp hsome
  obtain ⟨events, hevents, hlength⟩ := except_map_eq_ok.mp hrun.2
  exact ⟨stored, events, hfound, hlength, hdurable stored events hfound hevents (by omega)⟩

/-! ## Two statements -/

namespace SqliteRunLedger

/-- The stored events of a run. -/
def journal (codec : Codec Program) (database : Database codec.Text) (runId : RunId) :
    List StoredRunEvent :=
  match storedEvents codec database runId with
  | .ok events => events
  | .error _ => []

theorem Simulates.journal_eq {codec : Codec Program} {state : FakeRunLedger Program}
    {database : Database codec.Text} (hread : Readable codec state)
    (hcoherent : state.Coherent codec.wire) (h : Simulates codec state database) {runId : RunId}
    {run : FakeRun Program} (hrun : OrdMap.get? state.runs runId = some run) :
    journal codec database runId = run.events := by
  rw [journal, h.storedEvents_eq hread hcoherent hrun]

/-- The snapshot and the events belong to one committed state, whose journal is given: no event is
after the snapshot's cursor, and folding the events from the state at cursor `k`, and then those
that are still to be read, leads to the snapshot. -/
structure OneState (wire : Wire) (journal : List StoredRunEvent) (k : Nat)
    (tail : SnapshotAndTail) : Prop where
  within : ∀ e ∈ tail.events, ∃ n m, cursorSequence e.cursor = .ok n ∧
    cursorSequence tail.snapshot.cursor = .ok m ∧ n ≤ m
  folds : ∃ u rest, tail.events ++ rest = journal.drop k ∧
    replay (Ledger.step wire) 0 tail.snapshot.replaySeed
      ((journal.take k).map StoredRunEvent.event) = some u ∧
    replay (Ledger.step wire) k u ((tail.events ++ rest).map StoredRunEvent.event) =
      some tail.snapshot

/-- Between the two statements no event of the run was committed, or the page had no room for the
first of them. -/
def Undisturbed (wire : Wire) (k : Nat) (events later : List StoredRunEvent) : Prop :=
  match later.drop events.length with
  | [] => True
  | e :: _ => maxReplayEvents ≤ (events.drop k).length ∨
      maxReplayBytes < totalSize (eventSize wire) (events.drop k) + eventSize wire e

/-- A page of a longer journal stays within the old one exactly when it is not disturbed. -/
theorem pageAfter_length_iff {wire : Wire} {k : Nat} {events later : List StoredRunEvent}
    (hextend : events <+: later) (hk : k ≤ events.length) :
    (pageAfter (eventSize wire) later k).length ≤ (events.drop k).length ↔
      Undisturbed wire k events later := by
  obtain ⟨new, rfl⟩ := hextend
  have hdrop : (events ++ new).drop k = events.drop k ++ new := List.drop_append_of_le_length hk
  rw [pageAfter, hdrop, Undisturbed, List.drop_left]
  cases new with
  | nil =>
    refine iff_of_true ?_ trivial
    rw [List.append_nil]
    exact (page_isPrefix _ _).length_le
  | cons e new => exact page_append_length _ _ _

theorem mem_cursorsFrom {c : Cursor} {n l : Nat} (h : c ∈ cursorsFrom n l) :
    ∃ m ≤ n + l, c = cursorFor m := by
  induction l generalizing n with
  | zero => cases h
  | succ l ih =>
    rcases List.mem_cons.mp h with rfl | h
    · exact ⟨n + 1, by omega, rfl⟩
    · obtain ⟨m, hm, hc⟩ := ih h
      exact ⟨m, by omega, hc⟩

theorem oneState_iff {wire : Wire} {seed snapshot : RunSnapshot} {k : Nat}
    {events later : List StoredRunEvent} (hsourced : Sourced wire seed snapshot events)
    (hlater : later.map StoredRunEvent.cursor = cursorsFrom 0 later.length)
    (hbounded : later.length < 2 ^ 64) (hextend : events <+: later) (hk : k ≤ events.length) :
    OneState wire events k ⟨snapshot, pageAfter (eventSize wire) later k⟩ ↔
      Undisturbed wire k events later := by
  rw [← pageAfter_length_iff hextend hk]
  have hpage := pageAfter_isPrefix (eventSize wire) later k
  constructor
  · -- the last event of a longer page is after the snapshot
    intro h
    by_contra hlong
    have hne : pageAfter (eventSize wire) later k ≠ [] := by
      intro hnil
      rw [hnil] at hlong
      exact hlong (Nat.zero_le _)
    have hlast := List.getLast?_eq_some_getLast hne
    obtain ⟨n, m, hn, hm, hle⟩ := h.within _ (List.getLast_mem hne)
    have hlength := hpage.length_le
    rw [List.length_drop] at hlong hlength
    rw [pageAfter_last hlater hlast, cursorSequence_cursorFor (by omega)] at hn
    rw [hsourced.sequence] at hm
    cases hn
    cases hm
    omega
  · intro hlength
    obtain ⟨new, rfl⟩ := hextend
    have hold : pageAfter (eventSize wire) (events ++ new) k <+: events.drop k := by
      rw [List.drop_append_of_le_length hk] at hpage
      exact List.prefix_of_prefix_length_le hpage (List.prefix_append _ _) hlength
    refine ⟨fun e he => ?_, ?_⟩
    · have hmem : e.cursor ∈ cursorsFrom 0 events.length := by
        rw [← hsourced.cursors]
        exact List.mem_map_of_mem (List.mem_of_mem_drop (hold.subset he))
      obtain ⟨n, hn, hcursor⟩ := mem_cursorsFrom hmem
      have hshort := hsourced.bounded
      refine ⟨n, events.length, ?_, hsourced.sequence, by omega⟩
      rw [hcursor, cursorSequence_cursorFor (by omega)]
    · obtain ⟨rest, hrest⟩ := hold
      have hreplayed := hsourced.replayed
      rw [← List.take_append_drop k events, List.map_append] at hreplayed
      obtain ⟨u, hfront, hback⟩ := replay_split hreplayed
      refine ⟨u, rest, hrest, ?_, ?_⟩
      · rw [hsourced.seeded]
        exact hfront
      · rw [hrest]
        rwa [List.length_map, List.length_take_of_le hk, Nat.zero_add] at hback

/-- The calls of a client, with what the durable adapter stores before and after them. -/
theorem runCalls_durable [DecidableEq Program] {codec : Codec Program}
    {exact : Exactness Program} (hreads : codec.ReadsBack exact) {calls more : List (Call Program)}
    (hcalls : ∀ call ∈ calls, call.Carries exact) (hmore : ∀ call ∈ more, call.Carries exact) :
    let state := (runCalls (FakeRunLedger.stepWith codec nextSequence) calls .empty).2
    let later := (runCalls (FakeRunLedger.stepWith codec nextSequence) more state).2
    let first := (runCalls (step codec) calls .empty).2
    Readable codec state ∧ Readable codec later ∧ state.Coherent codec.wire ∧
      later.Coherent codec.wire ∧ Simulates codec state first ∧
      Simulates codec later (runCalls (step codec) more first).2 ∧
      FakeRunLedger.Extends state later := by
  obtain ⟨-, hcarries, hcoherent, hsimulates⟩ := runCalls_simulates hreads hcalls
    FakeRunLedger.carries_empty (FakeRunLedger.coherent_empty codec.wire) simulates_empty
  obtain ⟨-, hcarries', hcoherent', hsimulates'⟩ := runCalls_simulates hreads hmore hcarries
    hcoherent hsimulates
  exact ⟨hcarries.readable hreads, hcarries'.readable hreads, hcoherent, hcoherent', hsimulates,
    hsimulates', (FakeRunLedger.runCalls_extends numbering_nextSequence more hcoherent).2⟩

/-- **Snapshot and tail.** Whatever was committed before the first statement, and between it and
the second, the reply belongs to one committed state exactly when no event of the run that the page
has room for was committed between them. The calls carry only values that are read back. -/
theorem snapshotPage_oneState_iff [DecidableEq Program] (codec : Codec Program)
    (exact : Exactness Program) (hreads : codec.ReadsBack exact) (calls more : List (Call Program))
    (hcalls : ∀ call ∈ calls ++ more, call.Carries exact) (runId : RunId)
    (after : Option Cursor) (k : Nat) (tail : SnapshotAndTail)
    (hafter : FakeRunLedger.requested after = .ok k)
    (htail : snapshotPage codec (runCalls (step codec) calls .empty).2
      (runCalls (step codec) more (runCalls (step codec) calls .empty).2).2 runId after =
        .ok tail) :
    let first := (runCalls (step codec) calls .empty).2
    let second := (runCalls (step codec) more first).2
    OneState codec.wire (journal codec first runId) k tail ↔
      Undisturbed codec.wire k (journal codec first runId) (journal codec second runId) := by
  intro first second
  obtain ⟨hcalls, hmore⟩ := List.forall_mem_append.mp hcalls
  obtain ⟨hread, hread', hstate, hlater, hfirst, hsecond, hextends⟩ :=
    runCalls_durable hreads hcalls hmore
  cases hrun : OrdMap.get? (runCalls (FakeRunLedger.stepWith codec nextSequence) calls
      .empty).2.runs runId with
  | none =>
    rw [snapshotPage, loadExisting_eq hread hstate hfirst, hrun] at htail
    cases htail
  | some run =>
    obtain ⟨run', hrun', hextend, -⟩ := hextends runId run hrun
    rw [hfirst.journal_eq hread hstate hrun, hsecond.journal_eq hread' hlater hrun']
    rw [snapshotPage_eq hread hread' hstate hlater hfirst hsecond hrun hrun', hafter] at htail
    change (if run.events.length < k then _ else _) = _ at htail
    split at htail
    · cases htail
    · rename_i hk
      cases htail
      have hsourced' := hlater.sourced runId run' hrun'
      exact oneState_iff (hstate.sourced runId run hrun) hsourced'.cursors hsourced'.bounded hextend
        (Nat.not_lt.mp hk)

/-- The run has a full page of events before the first statement and is stopped before the second,
and the reply belongs to the state before. -/
theorem fullPage_oneState :
    let first := (runCalls (step Sample.floatCodec) Sample.fullCalls .empty).2
    let second := (runCalls (step Sample.floatCodec) [.requestForceStop Sample.runId] first).2
    (journal Sample.floatCodec first Sample.runId).length = maxReplayEvents ∧
      (journal Sample.floatCodec second Sample.runId).length = maxReplayEvents + 1 ∧
      ∃ tail, snapshotPage Sample.floatCodec first second Sample.runId none = .ok tail ∧
        OneState Sample.floatCodec.wire (journal Sample.floatCodec first Sample.runId) 0 tail := by
  intro first second
  have hcarried : ∀ call ∈ Sample.fullCalls ++ [.requestForceStop Sample.runId],
      call.Carries Sample.exact := by
    intro call hcall
    simp only [Sample.fullCalls, List.cons_append, List.nil_append, List.mem_cons,
      List.not_mem_nil, or_false] at hcall
    rcases hcall with rfl | rfl | rfl | rfl
    · trivial
    · exact fun event he => (List.mem_singleton.mp he) ▸ trivial
    · exact fun event he => (List.mem_replicate.mp he).2 ▸ trivial
    · trivial
  obtain ⟨hcalls, hmore⟩ := List.forall_mem_append.mp hcarried
  obtain ⟨hread, hread', hstate, hlater, hfirst, hsecond, -⟩ :=
    runCalls_durable Sample.readsBack hcalls hmore
  have hlength : (OrdMap.get? (runCalls (FakeRunLedger.stepWith Sample.floatCodec nextSequence)
      Sample.fullCalls .empty).2.runs Sample.runId).map (fun run => run.events.length) =
        some maxReplayEvents := by decide +kernel
  have hlength' : (OrdMap.get? (runCalls (FakeRunLedger.stepWith Sample.floatCodec nextSequence)
      [.requestForceStop Sample.runId] (runCalls (FakeRunLedger.stepWith Sample.floatCodec
        nextSequence) Sample.fullCalls .empty).2).2.runs Sample.runId).map
          (fun run => run.events.length) = some (maxReplayEvents + 1) := by decide +kernel
  obtain ⟨run, hrun, hlength⟩ := Option.map_eq_some_iff.mp hlength
  obtain ⟨run', hrun', hlength'⟩ := Option.map_eq_some_iff.mp hlength'
  have hjournal : journal Sample.floatCodec first Sample.runId = run.events :=
    hfirst.journal_eq hread hstate hrun
  have hjournal' : journal Sample.floatCodec second Sample.runId = run'.events :=
    hsecond.journal_eq hread' hlater hrun'
  have htail := snapshotPage_eq hread hread' hstate hlater hfirst hsecond hrun hrun' none
  refine ⟨hjournal ▸ hlength, hjournal' ▸ hlength', _, htail, ?_⟩
  refine (snapshotPage_oneState_iff Sample.floatCodec Sample.exact Sample.readsBack
    Sample.fullCalls [.requestForceStop Sample.runId] hcarried Sample.runId none 0 _ rfl
    htail).mpr ?_
  -- the page has no room for the event that stops the run
  rw [Undisturbed]
  split
  · trivial
  · refine .inl ?_
    change maxReplayEvents ≤ ((journal Sample.floatCodec first Sample.runId).drop 0).length
    rw [hjournal, List.drop_zero, hlength]

/-- The run is started before the first statement and stopped before the second: the snapshot is
the one at `v2:1`, and the page ends with `v2:2`. -/
theorem stopBetween_not_oneState :
    let first := (runCalls (step Sample.codec)
      [.createOrGet Sample.request, .append Sample.runId [.runStarted]] .empty).2
    let second := (runCalls (step Sample.codec) [.requestForceStop Sample.runId] first).2
    ∃ tail, snapshotPage Sample.codec first second Sample.runId none = .ok tail ∧
      ¬ OneState Sample.codec.wire (journal Sample.codec first Sample.runId) 0 tail := by
  intro first second
  have hreply : (snapshotPage Sample.codec first second Sample.runId none).map
      (fun tail => (tail.snapshot.cursor, tail.events.map StoredRunEvent.cursor)) =
        .ok (cursorFor 1, [cursorFor 1, cursorFor 2]) := by decide
  cases htail : snapshotPage Sample.codec first second Sample.runId none with
  | error e =>
    rw [htail] at hreply
    cases hreply
  | ok tail =>
    rw [htail] at hreply
    obtain ⟨hcursor, hevents⟩ := Prod.mk.inj (Except.ok.inj hreply)
    refine ⟨tail, rfl, fun h => ?_⟩
    have hmem : cursorFor 2 ∈ tail.events.map StoredRunEvent.cursor := by simp [hevents]
    obtain ⟨e, he, hcursor'⟩ := List.mem_map.mp hmem
    obtain ⟨n, m, hn, hm, hle⟩ := h.within e he
    rw [hcursor', cursorSequence_cursorFor (by omega)] at hn
    rw [show tail.snapshot.cursor = cursorFor 1 from hcursor,
      cursorSequence_cursorFor (by omega)] at hm
    cases hn
    cases hm
    omega

end SqliteRunLedger

end Zeroshot.Ledger
