import Zeroshot.Ledger.Pages

set_option autoImplicit false

/-!
# The two adapters

One call on related stores agrees (`step_simulates`), so by induction all calls of a client do
(`runCalls_simulates`). From this, every stored run of either adapter is the replay of its stored
events, and below `2 ^ 63` events the in-memory ledger and the durable one cannot be told apart by
their replies.
-/

namespace Zeroshot.Ledger

variable {Program : Type}

namespace SqliteRunLedger

variable {codec : Codec Program}

/-! ## One call -/

section

variable {state : FakeRunLedger Program} {database : Database codec.Text}

theorem append_agree (hread : Readable codec state) (hcoherent : state.Coherent codec.wire)
    (h : Simulates codec state database) (runId : RunId) (events : List RunEvent) :
    Agree (FakeRunLedger.append codec nextSequence runId events state).1
      (append codec runId events database).1 ∧
    Simulates codec (FakeRunLedger.append codec nextSequence runId events state).2
      (append codec runId events database).2 := by
  unfold FakeRunLedger.append append FakeRunLedger.withRun withTransaction
  beta_reduce
  cases hrun : OrdMap.get? state.runs runId with
  | none =>
    have hmissing : ∃ error, appendTransaction codec runId events database = .error error := by
      unfold appendTransaction
      split
      · exact ⟨_, rfl⟩
      · rw [loadExisting_eq hread hcoherent h, hrun]
        exact ⟨_, rfl⟩
    obtain ⟨error, hmissing⟩ := hmissing
    simp only [hmissing]
    exact ⟨rfl, h⟩
  | some run =>
    simp only [appendTransaction_eq hread hcoherent h hrun]
    cases happend : FakeRunLedger.appendLocked codec.wire nextSequence run events with
    | error e => exact ⟨rfl, h⟩
    | ok r => exact ⟨rfl, append_simulates hcoherent h hrun happend⟩

theorem snapshotAndTail_agree (hread : Readable codec state) (hcoherent : state.Coherent codec.wire)
    (h : Simulates codec state database) (runId : RunId) (after : Option Cursor) :
    FakeRunLedger.snapshotAndTail codec runId after state =
      snapshotPage codec database database runId after := by
  cases hrun : OrdMap.get? state.runs runId with
  | none =>
    simp only [FakeRunLedger.snapshotAndTail, snapshotPage, hrun,
      loadExisting_eq hread hcoherent h]
    rfl
  | some run =>
    rw [FakeRunLedger.snapshotAndTail_eq hcoherent hrun,
      snapshotPage_eq hread hread hcoherent hcoherent h h hrun hrun]

theorem getBySubmissionKey_eq (hread : Readable codec state) (hcoherent : state.Coherent codec.wire)
    (h : Simulates codec state database) (key : SubmissionKey) :
    getBySubmissionKey codec key database =
      .ok (FakeRunLedger.getBySubmissionKey key state) := by
  unfold getBySubmissionKey
  rw [loadBySubmission_eq hread hcoherent h]
  simp only [Except.map, FakeRunLedger.getBySubmissionKey, FakeRunLedger.get]
  cases OrdMap.get? state.submissions key with
  | none => rfl
  | some runId =>
    simp only [Option.bind_some, Option.map_map]
    rfl

/-- One call on related stores. -/
theorem step_simulates [DecidableEq Program] (hread : Readable codec state)
    (hcoherent : state.Coherent codec.wire) (h : Simulates codec state database)
    (call : Call Program) :
    Agree (FakeRunLedger.stepWith codec nextSequence call state).1 (step codec call database).1 ∧
      Simulates codec (FakeRunLedger.stepWith codec nextSequence call state).2
        (step codec call database).2 := by
  cases call with
  | createOrGet request =>
    obtain ⟨hagree, hsimulates⟩ := createOrGet_simulates hread hcoherent h request
    exact ⟨hagree.map _, hsimulates⟩
  | get runId =>
    refine ⟨?_, h⟩
    simp only [FakeRunLedger.stepWith, step, get, loadById_eq hread hcoherent h]
    rfl
  | getBySubmissionKey key =>
    refine ⟨?_, h⟩
    simp only [FakeRunLedger.stepWith, step, getBySubmissionKey_eq hread hcoherent h]
    rfl
  | append runId events =>
    obtain ⟨hagree, hsimulates⟩ := append_agree hread hcoherent h runId events
    exact ⟨hagree.map _, hsimulates⟩
  | requestForceStop runId =>
    obtain ⟨hagree, hsimulates⟩ := withRun_simulates hread hcoherent h runId
      [.forceStopRequested] fun snapshot => snapshot.forceStopRequested || snapshot.terminal.isSome
    exact ⟨hagree.map _, hsimulates⟩
  | snapshotAndTail runId after =>
    refine ⟨?_, h⟩
    simp only [FakeRunLedger.stepWith, step, snapshotAndTail_agree hread hcoherent h]
    rfl

/-- A call that fails leaves the database as it was. -/
theorem step_error [DecidableEq Program] {call : Call Program} {error : RunLedgerError}
    (h : (step codec call database).1 = .error error) :
    (step codec call database).2 = database := by
  have hrollback : ∀ {α : Type} {operation : Database codec.Text →
      Except RunLedgerError (α × Database codec.Text)},
      (withTransaction codec database operation).1 = .error error →
        (withTransaction codec database operation).2 = database := by
    intro α operation herror
    unfold withTransaction at herror ⊢
    cases hoperation : operation database with
    | error e => rfl
    | ok r =>
      rw [hoperation] at herror
      cases herror
  cases call with
  | createOrGet request =>
    have h := except_map_eq_error.mp h
    simp only [step, createOrGet] at h ⊢
    split
    · rfl
    · rename_i hvalid
      rw [if_neg hvalid] at h
      exact hrollback h
  | append runId events => exact hrollback (except_map_eq_error.mp h)
  | requestForceStop runId => exact hrollback (except_map_eq_error.mp h)
  | get | getBySubmissionKey | snapshotAndTail => rfl

end

/-! ## All calls -/

theorem runCalls_simulates [DecidableEq Program] {exact : Exactness Program}
    (hreads : codec.ReadsBack exact) {calls : List (Call Program)}
    (hcalls : ∀ call ∈ calls, call.Carries exact) {state : FakeRunLedger Program}
    {database : Database codec.Text} (hstate : state.Carries exact)
    (hcoherent : state.Coherent codec.wire) (h : Simulates codec state database) :
    let fake := runCalls (FakeRunLedger.stepWith codec nextSequence) calls state
    let durable := runCalls (step codec) calls database
    fake.1.map Except.toOption = durable.1.map Except.toOption ∧ fake.2.Carries exact ∧
      fake.2.Coherent codec.wire ∧ Simulates codec fake.2 durable.2 := by
  induction calls generalizing state database with
  | nil => exact ⟨rfl, hstate, hcoherent, h⟩
  | cons call calls ih =>
    obtain ⟨hcall, hcalls⟩ := List.forall_mem_cons.mp hcalls
    obtain ⟨hagree, hsimulates⟩ := step_simulates (hstate.readable hreads) hcoherent h call
    have hstate' : (FakeRunLedger.stepWith codec nextSequence call state).2.Carries exact :=
      FakeRunLedger.stepWith_carries hcall hstate
    have hcoherent' :=
      FakeRunLedger.stepWith_coherent numbering_nextSequence call hcoherent
    obtain ⟨hreplies, hrest⟩ := ih hcalls hstate' hcoherent' hsimulates
    refine ⟨?_, hrest⟩
    simp only [runCalls, List.map_cons]
    rw [hreplies, show Except.toOption _ = Except.toOption _ from hagree]

/-! ## Numbering

The in-memory ledger numbers events with `u64`, the durable one with `i64`. -/

section

variable {wire : Wire}

theorem appendLoop_renumber {next next' : Nat → Except RunLedgerError Nat}
    (hnext : Numbering next) {s : RunSnapshot} {n : Nat} {events : List RunEvent}
    {r : RunSnapshot × Nat × List StoredRunEvent}
    (hsame : ∀ m k, m < n + events.length → next m = .ok k → next' m = .ok k)
    (h : appendLoop wire next s n events = .ok r) : appendLoop wire next' s n events = .ok r := by
  induction events generalizing s n r with
  | nil => exact h
  | cons event events ih =>
    simp only [appendLoop, except_bind_eq_ok] at h ⊢
    obtain ⟨m, hm, h⟩ := h
    obtain ⟨rfl, -⟩ := hnext n m hm
    refine ⟨n + 1, hsame n _ (by simp) hm, ?_⟩
    split at h
    · cases h
    · rename_i t happly
      obtain ⟨rest, hrest, h⟩ := except_bind_eq_ok.mp h
      refine except_bind_eq_ok.mpr ⟨rest, ih (fun m k hmk => hsame m k ?_) hrest, h⟩
      rw [List.length_cons]
      omega

theorem nextSequence_le {n m : Nat} (h : nextSequence n = .ok m) :
    FakeRunLedger.nextSequence n = .ok m := by
  unfold nextSequence at h
  split at h
  · rename_i hsmall
    rw [FakeRunLedger.nextSequence, if_pos hsmall.1, h]
  · cases h

theorem nextSequence_of_short {n m : Nat} (hn : n + 1 < 2 ^ 63)
    (h : FakeRunLedger.nextSequence n = .ok m) : nextSequence n = .ok m := by
  unfold FakeRunLedger.nextSequence at h
  split at h
  · rename_i hsmall
    rw [nextSequence, if_pos ⟨hsmall, hn⟩, h]
  · cases h

/-- An append that the durable numbering accepts, and one that leaves a short journal, does not
depend on the numbering. -/
theorem appendLocked_renumber {run : FakeRun Program} {events : List RunEvent}
    {seed : RunSnapshot} (hsourced : Sourced wire seed run.stored.snapshot run.events)
    (hshort : ∀ result run', FakeRunLedger.appendLocked wire FakeRunLedger.nextSequence run events =
      .ok (result, run') → run'.events.length < 2 ^ 63) :
    (FakeRunLedger.appendLocked wire FakeRunLedger.nextSequence run events).toOption =
      (FakeRunLedger.appendLocked wire nextSequence run events).toOption := by
  have hlocked : ∀ {next next' : Nat → Except RunLedgerError Nat}
      {r : AppendResult × FakeRun Program},
      Numbering next → (∀ m k, m < run.events.length + events.length → next m = .ok k →
        next' m = .ok k) → FakeRunLedger.appendLocked wire next run events = .ok r →
      FakeRunLedger.appendLocked wire next' run events = .ok r := by
    intro next next' r hnext hsame h
    unfold FakeRunLedger.appendLocked at h ⊢
    split at h
    · cases h
    · rename_i hevents
      rw [if_neg hevents]
      simp only [hsourced.sequence, except_bind_eq_ok] at h ⊢
      obtain ⟨n, hn, loop, hloop, h⟩ := h
      cases hn
      exact ⟨_, rfl, loop, appendLoop_renumber hnext hsame hloop, h⟩
  cases hfake : FakeRunLedger.appendLocked wire FakeRunLedger.nextSequence run events with
  | ok r =>
    obtain ⟨result, run'⟩ := r
    obtain ⟨-, -, hevents, hlength⟩ := FakeRunLedger.appendLocked_eq_ok
      FakeRunLedger.numbering_nextSequence hsourced hfake
    have hbound := hshort result run' hfake
    rw [hevents, List.length_append, hlength] at hbound
    rw [hlocked FakeRunLedger.numbering_nextSequence
      (fun m k hm => nextSequence_of_short (by omega)) hfake]
  | error e =>
    cases hdurable : FakeRunLedger.appendLocked wire nextSequence run events with
    | error e' => rfl
    | ok r =>
      rw [hlocked numbering_nextSequence (fun m k _ => nextSequence_le) hdurable] at hfake
      cases hfake

theorem withRun_renumber (runId : RunId) (state : FakeRunLedger Program)
    (operation operation' : FakeRun Program →
      Except RunLedgerError (AppendResult × FakeRun Program))
    (h : ∀ run, OrdMap.get? state.runs runId = some run →
      (operation run).toOption = (operation' run).toOption) :
    Agree (FakeRunLedger.withRun runId state operation).1
        (FakeRunLedger.withRun runId state operation').1 ∧
      (FakeRunLedger.withRun runId state operation).2 =
        (FakeRunLedger.withRun runId state operation').2 := by
  unfold FakeRunLedger.withRun
  cases hrun : OrdMap.get? state.runs runId with
  | none => exact ⟨rfl, rfl⟩
  | some run =>
    have hsame := h run hrun
    dsimp only
    cases hfirst : operation run with
    | error e =>
      cases hsecond : operation' run with
      | error e' => exact ⟨rfl, rfl⟩
      | ok r =>
        rw [hfirst, hsecond] at hsame
        cases hsame
    | ok r =>
      cases hsecond : operation' run with
      | error e' =>
        rw [hfirst, hsecond] at hsame
        cases hsame
      | ok r' =>
        rw [hfirst, hsecond] at hsame
        cases hsame
        exact ⟨rfl, rfl⟩

end

/-- No run has `2 ^ 63` events. -/
def Short (state : FakeRunLedger Program) : Prop :=
  ∀ runId run, OrdMap.get? state.runs runId = some run → run.events.length < 2 ^ 63

theorem Short.of_extends {state state' : FakeRunLedger Program} (h : Short state')
    (hextends : FakeRunLedger.Extends state state') : Short state := by
  intro runId run hrun
  obtain ⟨run', hrun', hevents, -⟩ := hextends runId run hrun
  exact hevents.length_le.trans_lt (h runId run' hrun')

theorem stepWith_renumber [DecidableEq Program] {state : FakeRunLedger Program}
    (hcoherent : state.Coherent codec.wire) (call : Call Program)
    (hshort : Short (FakeRunLedger.step codec call state).2) :
    Agree (FakeRunLedger.step codec call state).1
        (FakeRunLedger.stepWith codec nextSequence call state).1 ∧
      (FakeRunLedger.step codec call state).2 =
        (FakeRunLedger.stepWith codec nextSequence call state).2 := by
  have happend : ∀ {runId : RunId} {run : FakeRun Program} {events : List RunEvent},
      OrdMap.get? state.runs runId = some run →
      (∀ result run', FakeRunLedger.appendLocked codec.wire FakeRunLedger.nextSequence run events =
        .ok (result, run') →
          Short { state with runs := OrdMap.insert runId run' state.runs }) →
      (FakeRunLedger.appendLocked codec.wire FakeRunLedger.nextSequence run events).toOption =
        (FakeRunLedger.appendLocked codec.wire nextSequence run events).toOption := by
    intro runId run events hrun hlater
    refine appendLocked_renumber (hcoherent.sourced runId run hrun) fun result run' hresult => ?_
    exact hlater result run' hresult runId run' (OrdMap.get?_insert_self _ _ _)
  cases call with
  | append runId events =>
    have hrenumber := withRun_renumber runId state
      (fun run => FakeRunLedger.appendLocked codec.wire FakeRunLedger.nextSequence run events)
      (fun run => FakeRunLedger.appendLocked codec.wire nextSequence run events)
      fun run hrun => happend hrun fun result run' hresult => by
        simpa only [FakeRunLedger.step, FakeRunLedger.stepWith, FakeRunLedger.append,
          FakeRunLedger.withRun, hrun, hresult] using hshort
    exact ⟨hrenumber.1.map _, hrenumber.2⟩
  | requestForceStop runId =>
    have hrenumber := withRun_renumber runId state
      (fun run =>
        if run.stored.snapshot.forceStopRequested || run.stored.snapshot.terminal.isSome then
          .ok (⟨run.stored.snapshot, []⟩, run)
        else FakeRunLedger.appendLocked codec.wire FakeRunLedger.nextSequence run
          [.forceStopRequested])
      (fun run =>
        if run.stored.snapshot.forceStopRequested || run.stored.snapshot.terminal.isSome then
          .ok (⟨run.stored.snapshot, []⟩, run)
        else FakeRunLedger.appendLocked codec.wire nextSequence run [.forceStopRequested])
      fun run hrun => by
        split
        · rfl
        · rename_i hstop
          refine happend hrun fun result run' hresult => ?_
          simpa only [FakeRunLedger.step, FakeRunLedger.stepWith, FakeRunLedger.requestForceStop,
            FakeRunLedger.withRun, hrun, if_neg hstop, hresult] using hshort
    exact ⟨hrenumber.1.map _, hrenumber.2⟩
  | createOrGet | get | getBySubmissionKey | snapshotAndTail => exact ⟨rfl, rfl⟩

/-- While the journals are short, the in-memory ledger and the durable one give the same replies,
and leave related stores. -/
theorem runCalls_renumber [DecidableEq Program] {exact : Exactness Program}
    (hreads : codec.ReadsBack exact) {calls : List (Call Program)}
    (hcalls : ∀ call ∈ calls, call.Carries exact) {state : FakeRunLedger Program}
    {database : Database codec.Text} (hstate : state.Carries exact)
    (hcoherent : state.Coherent codec.wire) (h : Simulates codec state database)
    (hshort : Short (runCalls (FakeRunLedger.step codec) calls state).2) :
    let fake := runCalls (FakeRunLedger.step codec) calls state
    let durable := runCalls (step codec) calls database
    fake.1.map Except.toOption = durable.1.map Except.toOption ∧ fake.2.Carries exact ∧
      Simulates codec fake.2 durable.2 := by
  induction calls generalizing state database with
  | nil => exact ⟨rfl, hstate, h⟩
  | cons call calls ih =>
    obtain ⟨hcall, hcalls⟩ := List.forall_mem_cons.mp hcalls
    have hstate' : (FakeRunLedger.step codec call state).2.Carries exact :=
      FakeRunLedger.stepWith_carries hcall hstate
    have hcoherent' : (FakeRunLedger.step codec call state).2.Coherent codec.wire :=
      FakeRunLedger.stepWith_coherent FakeRunLedger.numbering_nextSequence call hcoherent
    have hextends := (FakeRunLedger.runCalls_extends FakeRunLedger.numbering_nextSequence calls
      hcoherent').2
    obtain ⟨hagree, hsame⟩ := stepWith_renumber hcoherent call (hshort.of_extends hextends)
    obtain ⟨hagree', hsimulates⟩ := step_simulates (hstate.readable hreads) hcoherent h call
    rw [← hsame] at hsimulates
    obtain ⟨hreplies, hrest⟩ := ih hcalls hstate' hcoherent' hsimulates hshort
    refine ⟨?_, hrest⟩
    simp only [runCalls, List.map_cons]
    rw [hreplies, show Except.toOption _ = Except.toOption _ from hagree.trans hagree']

/-! ## Event sourcing -/

/-- What a database stores of a run is what the in-memory store it simulates has. -/
theorem Simulates.storedEvents_eq {state : FakeRunLedger Program} {database : Database codec.Text}
    (hread : Readable codec state) (hcoherent : state.Coherent codec.wire)
    (h : Simulates codec state database) {runId : RunId} {run : FakeRun Program}
    (hrun : OrdMap.get? state.runs runId = some run) :
    storedEvents codec database runId = .ok run.events := by
  have hsourced := hcoherent.sourced runId run hrun
  rw [storedEvents, h.events, hrun]
  exact mapM_of_forall₂ ((eventRows_reads runId (hread.event runId run hrun) hsourced.valid
    hsourced.cursors).imp fun _ _ hreads => hreads.decoded)

/-- The stored run of a row is the replay of its stored events. -/
theorem Simulates.sourced {state : FakeRunLedger Program} {database : Database codec.Text}
    (hread : Readable codec state) (hcoherent : state.Coherent codec.wire)
    (h : Simulates codec state database) {row : RunRow codec.Text} (hrow : row ∈ database.runs) :
    ∃ stored events, loadById codec database ⟨row.runId⟩ = .ok (some stored) ∧
      storedEvents codec database ⟨row.runId⟩ = .ok events ∧
      Sourced codec.wire (.ofAdmitted ⟨row.runId⟩ stored.admitted) stored.snapshot events := by
  have hselect : (database.selectRun row.runId).isSome = true := by
    rw [← any_runId_iff, List.any_eq_true]
    exact ⟨row, hrow, beq_self_eq_true _⟩
  rw [show database.selectRun row.runId = _ from h.run ⟨row.runId⟩, Option.isSome_map] at hselect
  obtain ⟨run, hrun⟩ := Option.isSome_iff_exists.mp hselect
  refine ⟨run.stored, run.events, ?_, h.storedEvents_eq hread hcoherent hrun,
    hcoherent.sourced _ run hrun⟩
  rw [loadById_eq hread hcoherent h, hrun]
  rfl

end SqliteRunLedger

/-- **Event sourcing and atomicity.** After any calls, the snapshot of every stored run is the
replay of exactly its stored events from its admission, in the in-memory ledger always and in the
durable one when the calls carry only values that are read back. The stored events are numbered
from one, and a call that fails changes nothing. -/
theorem storedRuns_sourced [DecidableEq Program] (codec : Codec Program)
    (calls : List (Call Program)) :
    let fake := (runCalls (FakeRunLedger.step codec) calls .empty).2
    let durable := (runCalls (SqliteRunLedger.step codec) calls .empty).2
    (∀ runId run, OrdMap.get? fake.runs runId = some run →
      Sourced codec.wire (.ofAdmitted runId run.stored.admitted) run.stored.snapshot run.events) ∧
    (∀ exact : Exactness Program, codec.ReadsBack exact → (∀ call ∈ calls, call.Carries exact) →
      ∀ row ∈ durable.runs, ∃ stored events,
        SqliteRunLedger.loadById codec durable ⟨row.runId⟩ = .ok (some stored) ∧
        SqliteRunLedger.storedEvents codec durable ⟨row.runId⟩ = .ok events ∧
        Sourced codec.wire (.ofAdmitted ⟨row.runId⟩ stored.admitted) stored.snapshot events) ∧
    (∀ runId stored events, SqliteRunLedger.loadById codec durable runId = .ok (some stored) →
      SqliteRunLedger.storedEvents codec durable runId = .ok events →
        events.map StoredRunEvent.cursor = cursorsFrom 0 events.length ∧
          cursorSequence stored.snapshot.cursor = .ok events.length) ∧
    (∀ call error, (FakeRunLedger.step codec call fake).1 = .error error →
      (FakeRunLedger.step codec call fake).2 = fake) ∧
    ∀ call error, (SqliteRunLedger.step codec call durable).1 = .error error →
      (SqliteRunLedger.step codec call durable).2 = durable := by
  intro fake durable
  have hempty : FakeRunLedger.Coherent codec.wire (.empty : FakeRunLedger Program) :=
    FakeRunLedger.coherent_empty codec.wire
  obtain ⟨hcoherent, -⟩ := FakeRunLedger.runCalls_extends FakeRunLedger.numbering_nextSequence
    calls hempty
  refine ⟨hcoherent.sourced, fun exact hreads hcalls row hrow => ?_,
    fun runId stored events hstored hevents => ?_, fun call error => FakeRunLedger.stepWith_error,
    fun call error => SqliteRunLedger.step_error⟩
  · obtain ⟨-, hcarries, hcoherent', hsimulates⟩ := SqliteRunLedger.runCalls_simulates hreads
      hcalls FakeRunLedger.carries_empty hempty SqliteRunLedger.simulates_empty
    exact hsimulates.sourced (hcarries.readable hreads) hcoherent' hrow
  · obtain ⟨hrows, hsequence, -⟩ :=
      (SqliteRunLedger.runCalls_journaled calls).sequence hstored
    have hread := SqliteRunLedger.forall₂_of_mapM hevents
    rw [hread.length_eq] at hsequence
    exact ⟨SqliteRunLedger.cursors_eq hrows hread, hsequence⟩

/-- A run whose float is read back is replayed by its three events. -/
theorem keptRun_sourced :
    let durable := (runCalls (SqliteRunLedger.step Sample.floatCodec)
      (Sample.floatCalls Sample.kept) .empty).2
    ∃ row ∈ durable.runs, ∃ stored events,
      SqliteRunLedger.loadById Sample.floatCodec durable ⟨row.runId⟩ = .ok (some stored) ∧
      SqliteRunLedger.storedEvents Sample.floatCodec durable ⟨row.runId⟩ = .ok events ∧
      events.length = 3 ∧
      Sourced Sample.floatCodec.wire (.ofAdmitted ⟨row.runId⟩ stored.admitted) stored.snapshot
        events := by
  intro durable
  obtain ⟨-, hdurable, -⟩ :=
    storedRuns_sourced Sample.floatCodec (Sample.floatCalls Sample.kept)
  have hkept : Sample.readValue Sample.kept = Sample.kept := by decide
  have hcalls : ∀ call ∈ Sample.floatCalls Sample.kept, call.Carries Sample.exact := by
    simp [Sample.floatCalls, Call.Carries, RunEvent.Carries, Sample.exact, hkept]
  have hrow : durable.runs.map (fun row => (SqliteRunLedger.storedEvents Sample.floatCodec durable
      ⟨row.runId⟩).map List.length) = [.ok 3] := by decide +kernel
  obtain ⟨row, hrow, hlength⟩ := List.map_eq_singleton_iff.mp hrow
  have hmem : row ∈ durable.runs := by
    rw [hrow]
    exact List.mem_singleton_self row
  obtain ⟨stored, events, hstored, hevents, hsourced⟩ :=
    hdurable Sample.exact Sample.readsBack hcalls row hmem
  rw [hevents] at hlength
  exact ⟨row, hmem, stored, events, hstored, hevents, Except.ok.inj hlength, hsourced⟩

/-- **A float that drifts.** Once the run is stopped, its stored snapshot has been read and written
once more than the event that started its node, and the replay of the events has another input. -/
theorem driftingRun_not_sourced :
    let durable := (runCalls (SqliteRunLedger.step Sample.floatCodec)
      (Sample.floatCalls Sample.drifting) .empty).2
    ∃ stored events,
      SqliteRunLedger.loadById Sample.floatCodec durable Sample.runId = .ok (some stored) ∧
      SqliteRunLedger.storedEvents Sample.floatCodec durable Sample.runId = .ok events ∧
      ¬ Sourced Sample.floatCodec.wire (.ofAdmitted Sample.runId stored.admitted) stored.snapshot
        events := by
  intro durable
  have hrun : (SqliteRunLedger.loadById Sample.floatCodec durable Sample.runId).map
        (Option.map fun stored => (stored.admitted, Sample.inputs stored.snapshot)) =
          .ok (some (Sample.request.admitted,
            [Sample.readValue (Sample.readValue Sample.drifting)])) ∧
      (SqliteRunLedger.storedEvents Sample.floatCodec durable Sample.runId).map
        (fun events => (replay (step Sample.floatCodec.wire) 0
          (.ofAdmitted Sample.runId Sample.request.admitted)
          (events.map StoredRunEvent.event)).map Sample.inputs) =
            .ok (some [Sample.readValue Sample.drifting]) := by decide +kernel
  have hdrift : Sample.readValue (Sample.readValue Sample.drifting) ≠
      Sample.readValue Sample.drifting := by decide
  obtain ⟨found, hfound, hstored⟩ := except_map_eq_ok.mp hrun.1
  obtain ⟨stored, rfl, hsnapshot⟩ := Option.map_eq_some_iff.mp hstored
  obtain ⟨events, hevents, hreplay⟩ := except_map_eq_ok.mp hrun.2
  obtain ⟨hadmitted, hinputs⟩ := Prod.mk.inj hsnapshot
  refine ⟨stored, events, hfound, hevents, fun hsourced => hdrift ?_⟩
  rw [← hadmitted, hsourced.replayed] at hreplay
  exact List.singleton_inj.mp (hinputs.symm.trans (Option.some.inj hreplay))

/-! ## Resubmission -/

/-- The answer to a request whose submission key a run has. -/
def resubmitted [DecidableEq Program] (codec : Codec Program) (runId : RunId)
    (run : StoredRun Program) (request : CreateRun Program) :
    Except RunLedgerError (CreateRunOutcome Program) :=
  if !validateCreate codec request then .error .admittedRunTooLarge
  else if run.submissionDigest = request.submissionDigest ∧ run.admitted = request.admitted then
    .ok (.existing run)
  else .error (.submissionConflict runId)

section

variable {codec : Codec Program} {state : FakeRunLedger Program}
  {runId : RunId} {run : FakeRun Program} {request : CreateRun Program}

theorem FakeRunLedger.createOrGet_resubmitted [DecidableEq Program]
    (hcoherent : state.Coherent codec.wire)
    (hrun : OrdMap.get? state.runs runId = some run)
    (hkey : run.stored.submissionKey = request.submissionKey) :
    FakeRunLedger.createOrGet codec request state =
      (resubmitted codec runId run.stored request, state) := by
  have hsubmitted := (hcoherent.submitted request.submissionKey runId).mpr ⟨run, hrun, hkey⟩
  simp only [FakeRunLedger.createOrGet, resubmitted, hsubmitted, hrun]
  split
  · rfl
  · split <;> rfl

theorem SqliteRunLedger.createOrGet_resubmitted [DecidableEq Program]
    {database : Database codec.Text} (hread : Readable codec state)
    (hcoherent : state.Coherent codec.wire)
    (h : SqliteRunLedger.Simulates codec state database)
    (hrun : OrdMap.get? state.runs runId = some run)
    (hkey : run.stored.submissionKey = request.submissionKey) :
    SqliteRunLedger.createOrGet codec request database =
      (resubmitted codec runId run.stored request, database) := by
  have hsubmitted := (hcoherent.submitted request.submissionKey runId).mpr ⟨run, hrun, hkey⟩
  have hload : SqliteRunLedger.loadBySubmission codec database request.submissionKey =
      .ok (some (runId.asStr, run.stored.submissionDigest, run.stored)) := by
    rw [SqliteRunLedger.loadBySubmission_eq hread hcoherent h, hsubmitted, Option.bind_some, hrun]
    rfl
  unfold SqliteRunLedger.createOrGet resubmitted
  split
  · rfl
  · by_cases hsame : run.stored.submissionDigest = request.submissionDigest ∧
        run.stored.admitted = request.admitted
    · have hexisting : SqliteRunLedger.existingSubmission codec database request =
          .ok (some run.stored) := by
        rw [SqliteRunLedger.existingSubmission, hload]
        exact if_pos hsame
      rw [SqliteRunLedger.withTransaction, hexisting, if_pos hsame]
      rfl
    · have hconflict : SqliteRunLedger.existingSubmission codec database request =
          .error (.submissionConflict runId) := by
        rw [SqliteRunLedger.existingSubmission, hload]
        exact if_neg hsame
      rw [SqliteRunLedger.withTransaction, hconflict, if_neg hsame]
      rfl

/-- Every stored run passed `validate_create`. -/
def FakeRunLedger.Admissible (codec : Codec Program) (state : FakeRunLedger Program) : Prop :=
  ∀ runId run request, OrdMap.get? state.runs runId = some run →
    run.stored.admitted = request.admitted → validateCreate codec request = true

theorem FakeRunLedger.withRun_admissible {runId : RunId}
    {operation : FakeRun Program → Except RunLedgerError (AppendResult × FakeRun Program)}
    (h : Admissible codec state)
    (hoperation : ∀ run result run', operation run = .ok (result, run') →
      run'.stored.admitted = run.stored.admitted) :
    Admissible codec (FakeRunLedger.withRun runId state operation).2 := by
  unfold FakeRunLedger.withRun
  split
  · exact h
  · rename_i run hrun
    split
    · exact h
    · rename_i result run' hresult
      intro id other request hother hadmitted
      by_cases hid : id = runId
      · subst hid
        rw [OrdMap.get?_insert_self] at hother
        cases hother
        exact h id run request hrun ((hoperation run result run' hresult).symm.trans hadmitted)
      · rw [OrdMap.get?_insert_ne hid] at hother
        exact h id other request hother hadmitted

theorem FakeRunLedger.appendLocked_admitted {wire : Wire} {next : Nat → Except RunLedgerError Nat}
    {run run' : FakeRun Program} {events : List RunEvent} {result : AppendResult}
    (h : appendLocked wire next run events = .ok (result, run')) :
    run'.stored.admitted = run.stored.admitted := by
  unfold appendLocked at h
  split at h
  · cases h
  · simp only [except_bind_eq_ok] at h
    obtain ⟨n, -, loop, -, h⟩ := h
    cases h
    rfl

theorem FakeRunLedger.stepWith_admissible [DecidableEq Program]
    {next : Nat → Except RunLedgerError Nat} (call : Call Program) (h : Admissible codec state) :
    Admissible codec (FakeRunLedger.stepWith codec next call state).2 := by
  cases call with
  | createOrGet request =>
    simp only [stepWith, createOrGet]
    split
    · exact h
    · rename_i hvalid
      split
      · split
        · exact h
        · split <;> exact h
      · split
        · exact h
        · intro id run request' hrun hadmitted
          by_cases hid : id = request.runId
          · subst hid
            rw [OrdMap.get?_insert_self] at hrun
            cases hrun
            rw [validateCreate, ← hadmitted]
            simpa [newRun, validateCreate] using hvalid
          · rw [OrdMap.get?_insert_ne hid] at hrun
            exact h id run request' hrun hadmitted
  | append runId events =>
    exact withRun_admissible h fun run result run' hresult => appendLocked_admitted hresult
  | requestForceStop runId =>
    refine withRun_admissible h fun run result run' hresult => ?_
    split at hresult
    · cases hresult
      rfl
    · exact appendLocked_admitted hresult
  | get | getBySubmissionKey | snapshotAndTail => exact h

end

/-- **The in-memory ledger refines the durable one.** While no run has `2 ^ 63` events, both
adapters succeed on the same calls with the same values. A run is found by at most one run id and
one submission key, resubmitting it returns it unchanged, and a conflicting request changes
nothing. -/
theorem adapters_agree [DecidableEq Program] (codec : Codec Program) (hcodec : codec.RoundTrips)
    (calls : List (Call Program))
    (hshort : SqliteRunLedger.Short (runCalls (FakeRunLedger.step codec) calls .empty).2) :
    let fake := runCalls (FakeRunLedger.step codec) calls .empty
    let durable := runCalls (SqliteRunLedger.step codec) calls .empty
    fake.1.map Except.toOption = durable.1.map Except.toOption ∧
    (durable.2.runs.map RunRow.runId).Nodup ∧ (durable.2.runs.map RunRow.submissionKey).Nodup ∧
    (∀ runId runId' run run', OrdMap.get? fake.2.runs runId = some run →
      OrdMap.get? fake.2.runs runId' = some run' →
        run.stored.submissionKey = run'.stored.submissionKey → runId = runId') ∧
    (∀ runId run request, OrdMap.get? fake.2.runs runId = some run →
      run.stored.submissionKey = request.submissionKey →
      run.stored.submissionDigest = request.submissionDigest →
      run.stored.admitted = request.admitted →
        FakeRunLedger.step codec (.createOrGet request) fake.2 =
            (.ok (.created (.existing run.stored)), fake.2) ∧
          SqliteRunLedger.step codec (.createOrGet request) durable.2 =
            (.ok (.created (.existing run.stored)), durable.2)) ∧
    ∀ runId run request, OrdMap.get? fake.2.runs runId = some run →
      run.stored.submissionKey = request.submissionKey →
      ¬ (run.stored.submissionDigest = request.submissionDigest ∧
        run.stored.admitted = request.admitted) →
        ∃ error, FakeRunLedger.step codec (.createOrGet request) fake.2 = (.error error, fake.2) ∧
          SqliteRunLedger.step codec (.createOrGet request) durable.2 =
            (.error error, durable.2) := by
  intro fake durable
  have hempty : FakeRunLedger.Coherent codec.wire (.empty : FakeRunLedger Program) :=
    FakeRunLedger.coherent_empty codec.wire
  obtain ⟨hreplies, hcarries, hsimulates⟩ := SqliteRunLedger.runCalls_renumber hcodec.readsBack
    (fun call _ => call.carries_all) FakeRunLedger.carries_empty hempty
    SqliteRunLedger.simulates_empty hshort
  have hread := hcarries.readable hcodec.readsBack
  have hcoherent : fake.2.Coherent codec.wire := (FakeRunLedger.runCalls_extends
    FakeRunLedger.numbering_nextSequence calls hempty).1
  have hadmissible : fake.2.Admissible codec :=
    runCalls_invariant (fun call state => FakeRunLedger.stepWith_admissible call) calls
      (fun _ _ _ h => by cases h)
  have hfake : ∀ runId run request, OrdMap.get? fake.2.runs runId = some run →
      run.stored.submissionKey = request.submissionKey →
        FakeRunLedger.createOrGet codec request fake.2 =
          (resubmitted codec runId run.stored request, fake.2) :=
    fun _ _ _ => FakeRunLedger.createOrGet_resubmitted hcoherent
  have hdurable : ∀ runId run request, OrdMap.get? fake.2.runs runId = some run →
      run.stored.submissionKey = request.submissionKey →
        SqliteRunLedger.createOrGet codec request durable.2 =
          (resubmitted codec runId run.stored request, durable.2) :=
    fun _ _ _ => SqliteRunLedger.createOrGet_resubmitted hread hcoherent hsimulates
  refine ⟨hreplies, hsimulates.distinct, hsimulates.keys, ?_, ?_, ?_⟩
  · intro runId runId' run run' hrun hrun' hkey
    have hid := (hcoherent.submitted run.stored.submissionKey runId).mpr ⟨run, hrun, rfl⟩
    have hid' := (hcoherent.submitted run.stored.submissionKey runId').mpr ⟨run', hrun', hkey.symm⟩
    exact Option.some.inj (hid.symm.trans hid')
  · intro runId run request hrun hkey hdigest hadmitted
    have hresubmitted :
        resubmitted codec runId run.stored request = .ok (.existing run.stored) := by
      have hvalid := hadmissible runId run request hrun hadmitted
      simp [resubmitted, hvalid, hdigest, hadmitted]
    simp only [FakeRunLedger.step, FakeRunLedger.stepWith, SqliteRunLedger.step,
      hfake runId run request hrun hkey, hdurable runId run request hrun hkey, hresubmitted]
    exact ⟨rfl, rfl⟩
  · intro runId run request hrun hkey hconflict
    have hresubmitted : ∃ error, resubmitted codec runId run.stored request = .error error := by
      rw [resubmitted, if_neg hconflict]
      split <;> exact ⟨_, rfl⟩
    obtain ⟨error, herror⟩ := hresubmitted
    refine ⟨error, ?_⟩
    simp only [FakeRunLedger.step, FakeRunLedger.stepWith, SqliteRunLedger.step,
      hfake runId run request hrun hkey, hdurable runId run request hrun hkey, herror]
    exact ⟨rfl, rfl⟩

namespace Sample

/-- The request again, for another program text. -/
def conflicting : CreateRun Unit := { request with submissionDigest := "digest-2" }

def secondRequest : CreateRun Unit :=
  ⟨⟨"run-2"⟩, ⟨"submission-2"⟩, "digest-2", ⟨"sample", none, .small, ()⟩⟩

/-- A run that is started and stopped, its request again, a request that conflicts with it, another
run, and reads of both. -/
def resubmissions : List (Call Unit) :=
  calls ++ [.createOrGet request, .createOrGet conflicting, .createOrGet secondRequest,
    .getBySubmissionKey request.submissionKey, .get secondRequest.runId,
    .snapshotAndTail runId (some ⟨"v2:1"⟩)]

end Sample

/-- Both stores answer the calls alike; afterwards the first request still returns its run and the
conflicting one still changes nothing. -/
theorem resubmissions_agree :
    SqliteRunLedger.Short (runCalls (FakeRunLedger.step Sample.codec) Sample.resubmissions
        .empty).2 ∧
      (runCalls (FakeRunLedger.step Sample.codec) Sample.resubmissions .empty).1.map
          Except.toOption =
        (runCalls (SqliteRunLedger.step Sample.codec) Sample.resubmissions .empty).1.map
          Except.toOption ∧
      ∃ (run : FakeRun Unit) (error : RunLedgerError), run.events.length = 2 ∧
        SqliteRunLedger.step Sample.codec (.createOrGet Sample.request)
            (runCalls (SqliteRunLedger.step Sample.codec) Sample.resubmissions .empty).2 =
          (.ok (.created (.existing run.stored)),
            (runCalls (SqliteRunLedger.step Sample.codec) Sample.resubmissions .empty).2) ∧
        SqliteRunLedger.step Sample.codec (.createOrGet Sample.conflicting)
            (runCalls (SqliteRunLedger.step Sample.codec) Sample.resubmissions .empty).2 =
          (.error error,
            (runCalls (SqliteRunLedger.step Sample.codec) Sample.resubmissions .empty).2) := by
  have hruns : (runCalls (FakeRunLedger.step Sample.codec) Sample.resubmissions .empty).2.runs.all
      (fun entry => entry.2.events.length ≤ 2) = true := by decide
  have hshort : SqliteRunLedger.Short
      (runCalls (FakeRunLedger.step Sample.codec) Sample.resubmissions .empty).2 := by
    intro runId run hrun
    have hlength := List.all_eq_true.mp hruns _ (OrdMap.mem_of_get? hrun)
    have hlength : run.events.length ≤ 2 := of_decide_eq_true hlength
    omega
  have hstored : (OrdMap.get? (runCalls (FakeRunLedger.step Sample.codec) Sample.resubmissions
      .empty).2.runs Sample.runId).map (fun run => (run.events.length, run.stored.submissionKey,
        run.stored.submissionDigest, run.stored.admitted)) =
      some (2, Sample.request.submissionKey, Sample.request.submissionDigest,
        Sample.request.admitted) := by decide
  obtain ⟨run, hrun, hproperties⟩ := Option.map_eq_some_iff.mp hstored
  simp only [Prod.mk.injEq] at hproperties
  obtain ⟨hlength, hkey, hdigest, hadmitted⟩ := hproperties
  obtain ⟨hreplies, -, -, -, hagain, hconflict⟩ :=
    adapters_agree Sample.codec Sample.roundTrips Sample.resubmissions hshort
  have hother : ¬ (run.stored.submissionDigest = Sample.conflicting.submissionDigest ∧
      run.stored.admitted = Sample.conflicting.admitted) := by
    rw [hdigest]
    exact fun h => absurd h.1 (by decide)
  obtain ⟨error, -, herror⟩ := hconflict _ run Sample.conflicting hrun hkey hother
  exact ⟨hshort, hreplies, run, error, hlength,
    (hagain _ run Sample.request hrun hkey hdigest hadmitted).2, herror⟩

end Zeroshot.Ledger
