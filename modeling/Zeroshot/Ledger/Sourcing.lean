import Zeroshot.Ledger.Fake

set_option autoImplicit false

/-!
# Event sourcing

The stored snapshot of a run is the replay of its stored events from its admission (`Sourced`).
One accepted event keeps this, an accepted batch keeps it by induction over the batch, and a batch
that is refused leaves the store as it was.
-/

namespace Zeroshot.Ledger

variable {Program : Type}

/-! ## Batches -/

theorem except_map_eq_error {ε α β : Type} {f : α → β} {x : Except ε α} {e : ε} :
    x.map f = .error e ↔ x = .error e := by
  cases x <;> simp [Except.map]

theorem except_map_eq_ok {ε α β : Type} {f : α → β} {x : Except ε α} {b : β} :
    x.map f = .ok b ↔ ∃ a, x = .ok a ∧ f a = b := by
  cases x <;> simp [Except.map]

/-- A numbering: the next number, while it fits 64 bits. -/
def Numbering (next : Nat → Except RunLedgerError Nat) : Prop :=
  ∀ n m, next n = .ok m → m = n + 1 ∧ m < 2 ^ 64

theorem FakeRunLedger.numbering_nextSequence : Numbering FakeRunLedger.nextSequence := by
  intro n m h
  unfold FakeRunLedger.nextSequence at h
  split at h
  · cases h
    exact ⟨rfl, by assumption⟩
  · cases h

/-- The cursors `v2:n+1`, `v2:n+2`, and so on. -/
def cursorsFrom (n : Nat) : Nat → List Cursor
  | 0 => []
  | k + 1 => cursorFor (n + 1) :: cursorsFrom (n + 1) k

theorem cursorsFrom_add (n k l : Nat) :
    cursorsFrom n (k + l) = cursorsFrom n k ++ cursorsFrom (n + k) l := by
  induction k generalizing n with
  | zero => simp [cursorsFrom]
  | succ k ih =>
    rw [show k + 1 + l = k + l + 1 by omega, cursorsFrom, ih, cursorsFrom, List.cons_append,
      show n + 1 + k = n + (k + 1) by omega]

/-- What an accepted batch stores. -/
structure Appended (wire : Wire) (n : Nat) (s : RunSnapshot) (stored : List StoredRunEvent)
    (s' : RunSnapshot) : Prop where
  replayed : replay (step wire) n s (stored.map StoredRunEvent.event) = some s'
  cursors : stored.map StoredRunEvent.cursor = cursorsFrom n stored.length
  cursor : stored ≠ [] → s'.cursor = cursorFor (n + stored.length)
  bounded : stored ≠ [] → n + stored.length < 2 ^ 64
  valid : ∀ e ∈ stored, validateEvent wire e.event = true

theorem Appended.cons {wire : Wire} {n : Nat} {s t s' : RunSnapshot} {event : RunEvent}
    {stored : List StoredRunEvent} (hstep : applyEvent wire event (n + 1) s = .ok () t)
    (hsmall : n + 1 < 2 ^ 64) (h : Appended wire (n + 1) t stored s') :
    Appended wire n s (⟨cursorFor (n + 1), event⟩ :: stored) s' := by
  obtain ⟨-, hvalid, middle, -, rfl⟩ := applyEvent_eq_ok hstep
  have hlength : n + (stored.length + 1) = n + 1 + stored.length := by omega
  refine ⟨?_, ?_, fun _ => ?_, fun _ => ?_, ?_⟩
  · rw [List.map_cons, replay_cons (step_eq_some.mpr hstep), h.replayed]
  · rw [List.map_cons, h.cursors, List.length_cons, cursorsFrom]
  · rw [List.length_cons, hlength]
    cases stored with
    | nil =>
      cases h.replayed
      rfl
    | cons e stored => exact h.cursor (by simp)
  · rw [List.length_cons, hlength]
    cases stored with
    | nil => exact hsmall
    | cons e stored => exact h.bounded (by simp)
  · intro e he
    rcases List.mem_cons.mp he with rfl | he
    · exact hvalid
    · exact h.valid e he

theorem appendLoop_appended {wire : Wire} {next : Nat → Except RunLedgerError Nat}
    (hnext : Numbering next) {s s' : RunSnapshot} {n n' : Nat} {events : List RunEvent}
    {stored : List StoredRunEvent} (h : appendLoop wire next s n events = .ok (s', n', stored)) :
    Appended wire n s stored s' ∧ n' = n + stored.length ∧ stored.length = events.length := by
  induction events generalizing s n s' n' stored with
  | nil =>
    cases h
    exact ⟨⟨rfl, rfl, fun h => absurd rfl h, fun h => absurd rfl h, fun _ h => (nomatch h)⟩, rfl,
      rfl⟩
  | cons event events ih =>
    simp only [appendLoop, except_bind_eq_ok] at h
    obtain ⟨m, hm, h⟩ := h
    obtain ⟨rfl, hsmall⟩ := hnext n m hm
    split at h
    · cases h
    · rename_i u t hstep
      obtain ⟨⟨s₁, n₁, stored₁⟩, hrest, h⟩ := except_bind_eq_ok.mp h
      cases h
      obtain ⟨happended, rfl, hlength⟩ := ih hrest
      refine ⟨happended.cons hstep hsmall, ?_, ?_⟩
      · change n + 1 + stored₁.length = n + (stored₁.length + 1)
        omega
      · rw [List.length_cons, List.length_cons, hlength]

/-! ## Sourced runs -/

/-- The snapshot is the replay of the events from the admitted run. -/
structure Sourced (wire : Wire) (seed snapshot : RunSnapshot) (events : List StoredRunEvent) :
    Prop where
  replayed : replay (step wire) 0 seed (events.map StoredRunEvent.event) = some snapshot
  cursors : events.map StoredRunEvent.cursor = cursorsFrom 0 events.length
  cursor : snapshot.cursor = cursorFor events.length
  seeded : snapshot.replaySeed = seed
  bounded : events.length < 2 ^ 64
  valid : ∀ e ∈ events, validateEvent wire e.event = true

theorem Changes.replaySeed {n : Nat} {event : RunEvent} {s s' : RunSnapshot}
    (h : Changes n event s s') : s'.replaySeed = s.replaySeed := by
  cases h with
  | observed _ change =>
    rw [change.rest]
    rfl
  | _ => rfl

theorem step_replaySeed {wire : Wire} {event : RunEvent} {n : Nat} {s s' : RunSnapshot}
    (h : step wire event n s = some s') : s'.replaySeed = s.replaySeed := by
  obtain ⟨-, -, t, hchanges, rfl⟩ := applyEvent_eq_ok (step_eq_some.mp h)
  exact hchanges.replaySeed

theorem replay_replaySeed {wire : Wire} {n : Nat} {s s' : RunSnapshot} {events : List RunEvent}
    (h : replay (step wire) n s events = some s') : s'.replaySeed = s.replaySeed :=
  @replay_invariant _ _ (step wire) (fun _ t => t.replaySeed = s.replaySeed) n s s' events
    (fun _ _ _ _ hstep ht => (step_replaySeed hstep).trans ht) h rfl

theorem Sourced.admitted (wire : Wire) (runId : RunId) (admitted : AdmittedRun Program) :
    Sourced wire (.ofAdmitted runId admitted) (.ofAdmitted runId admitted) [] :=
  ⟨rfl, rfl, rfl, rfl, by simp, fun _ h => (nomatch h)⟩

theorem Sourced.sequence {wire : Wire} {seed snapshot : RunSnapshot}
    {events : List StoredRunEvent} (h : Sourced wire seed snapshot events) :
    cursorSequence snapshot.cursor = .ok events.length := by
  rw [h.cursor, cursorSequence_cursorFor h.bounded]

theorem Sourced.append {wire : Wire} {seed s s' : RunSnapshot}
    {events stored : List StoredRunEvent} (h : Sourced wire seed s events)
    (happended : Appended wire events.length s stored s') :
    Sourced wire seed s' (events ++ stored) := by
  have hreplayed : replay (step wire) 0 seed ((events ++ stored).map StoredRunEvent.event) =
      some s' := by
    rw [List.map_append, replay_append h.replayed, List.length_map, Nat.zero_add,
      happended.replayed]
  refine ⟨hreplayed, ?_, ?_, ?_, ?_, ?_⟩
  · rw [List.map_append, h.cursors, happended.cursors, List.length_append, cursorsFrom_add,
      Nat.zero_add]
  · rw [List.length_append]
    cases stored with
    | nil =>
      cases happended.replayed
      exact h.cursor
    | cons e stored => exact happended.cursor (by simp)
  · rw [replay_replaySeed happended.replayed, h.seeded]
  · rw [List.length_append]
    cases stored with
    | nil => exact h.bounded
    | cons e stored => exact happended.bounded (by simp)
  · intro e he
    rcases List.mem_append.mp he with he | he
    · exact h.valid e he
    · exact happended.valid e he

/-! ## The in-memory store -/

namespace FakeRunLedger

/-- Every run of the store is sourced, and the submissions name the runs. -/
structure Coherent (wire : Wire) (state : FakeRunLedger Program) : Prop where
  sourced : ∀ runId run, OrdMap.get? state.runs runId = some run →
    Sourced wire (.ofAdmitted runId run.stored.admitted) run.stored.snapshot run.events
  submitted : ∀ key runId, OrdMap.get? state.submissions key = some runId ↔
    ∃ run, OrdMap.get? state.runs runId = some run ∧ run.stored.submissionKey = key

theorem coherent_empty (wire : Wire) : Coherent wire (empty : FakeRunLedger Program) where
  sourced _ _ h := by cases h
  submitted _ _ := by simp [empty]

/-- A run with a longer journal in its place. -/
theorem Coherent.insert {wire : Wire} {state : FakeRunLedger Program} (h : Coherent wire state)
    {runId : RunId} {run run' : FakeRun Program}
    (hrun : OrdMap.get? state.runs runId = some run)
    (hkey : run'.stored.submissionKey = run.stored.submissionKey)
    (hsourced : Sourced wire (.ofAdmitted runId run'.stored.admitted) run'.stored.snapshot
      run'.events) :
    Coherent wire { state with runs := OrdMap.insert runId run' state.runs } where
  sourced id other hother := by
    by_cases hid : id = runId
    · subst hid
      rw [OrdMap.get?_insert_self] at hother
      cases hother
      exact hsourced
    · rw [OrdMap.get?_insert_ne hid] at hother
      exact h.sourced id other hother
  submitted key id := by
    rw [h.submitted]
    by_cases hid : id = runId
    · subst hid
      rw [OrdMap.get?_insert_self, hrun]
      simp [hkey]
    · rw [OrdMap.get?_insert_ne hid]

theorem appendLocked_eq_ok {wire : Wire} {next : Nat → Except RunLedgerError Nat}
    (hnext : Numbering next) {run run' : FakeRun Program} {events : List RunEvent}
    {result : AppendResult} {seed : RunSnapshot}
    (hsourced : Sourced wire seed run.stored.snapshot run.events)
    (h : appendLocked wire next run events = .ok (result, run')) :
    Sourced wire seed run'.stored.snapshot run'.events ∧
      run'.stored = { run.stored with snapshot := result.snapshot } ∧
      run'.events = run.events ++ result.events ∧ result.events.length = events.length := by
  unfold appendLocked at h
  split at h
  · cases h
  · simp only [hsourced.sequence, except_bind_eq_ok] at h
    obtain ⟨n, hn, ⟨snapshot, last, stored⟩, hloop, h⟩ := h
    cases hn
    cases h
    obtain ⟨happended, -, hlength⟩ := appendLoop_appended hnext hloop
    exact ⟨hsourced.append happended, rfl, rfl, hlength⟩

theorem withRun_coherent {wire : Wire} {runId : RunId} {state : FakeRunLedger Program}
    {operation : FakeRun Program → Except RunLedgerError (AppendResult × FakeRun Program)}
    (h : Coherent wire state)
    (hoperation : ∀ run result run' seed, Sourced wire seed run.stored.snapshot run.events →
      operation run = .ok (result, run') →
        Sourced wire seed run'.stored.snapshot run'.events ∧
          run'.stored = { run.stored with snapshot := result.snapshot }) :
    Coherent wire (withRun runId state operation).2 := by
  unfold withRun
  split
  · exact h
  · rename_i run hrun
    split
    · exact h
    · rename_i result run' hresult
      obtain ⟨hsourced, hstored⟩ := hoperation run result run' _ (h.sourced runId run hrun) hresult
      refine h.insert hrun (by rw [hstored]) ?_
      rwa [show run'.stored.admitted = run.stored.admitted by rw [hstored]]

theorem createOrGet_coherent [DecidableEq Program] {codec : Codec Program}
    {request : CreateRun Program} {state : FakeRunLedger Program} (h : Coherent codec.wire state) :
    Coherent codec.wire (createOrGet codec request state).2 := by
  unfold createOrGet
  split
  · exact h
  · split
    · split
      · exact h
      · split <;> exact h
    · rename_i hkey
      split
      · exact h
      · rename_i hfresh
        have hfresh : OrdMap.get? state.runs request.runId = none := by
          rw [← Option.not_isSome_iff_eq_none]
          exact hfresh
        refine ⟨fun id run hrun => ?_, fun key id => ?_⟩
        · by_cases hid : id = request.runId
          · subst hid
            rw [OrdMap.get?_insert_self] at hrun
            cases hrun
            exact Sourced.admitted _ _ _
          · rw [OrdMap.get?_insert_ne hid] at hrun
            exact h.sourced id run hrun
        · -- the new key names the new run, and no other run has it
          by_cases hk : key = request.submissionKey
          · subst hk
            rw [OrdMap.get?_insert_self]
            by_cases hid : id = request.runId
            · subst hid
              rw [OrdMap.get?_insert_self]
              simp [newRun]
            · rw [OrdMap.get?_insert_ne hid, ← h.submitted, hkey]
              simp [Ne.symm hid]
          · rw [OrdMap.get?_insert_ne hk, h.submitted]
            by_cases hid : id = request.runId
            · subst hid
              rw [OrdMap.get?_insert_self, hfresh]
              simp [newRun, Ne.symm hk]
            · rw [OrdMap.get?_insert_ne hid]

/-- One call keeps the store coherent. -/
theorem stepWith_coherent [DecidableEq Program] {codec : Codec Program}
    {next : Nat → Except RunLedgerError Nat} (hnext : Numbering next) (call : Call Program)
    {state : FakeRunLedger Program} (h : Coherent codec.wire state) :
    Coherent codec.wire (stepWith codec next call state).2 := by
  cases call with
  | createOrGet request => exact createOrGet_coherent h
  | get runId => exact h
  | getBySubmissionKey key => exact h
  | append runId events =>
    refine withRun_coherent h fun run result run' seed hsourced hresult => ?_
    obtain ⟨hsourced', hstored, -⟩ := appendLocked_eq_ok hnext hsourced hresult
    exact ⟨hsourced', hstored⟩
  | requestForceStop runId =>
    refine withRun_coherent h fun run result run' seed hsourced hresult => ?_
    split at hresult
    · cases hresult
      exact ⟨hsourced, rfl⟩
    · obtain ⟨hsourced', hstored, -⟩ := appendLocked_eq_ok hnext hsourced hresult
      exact ⟨hsourced', hstored⟩
  | snapshotAndTail runId after => exact h

/-! ## Growth -/

/-- Every run is kept, and only its snapshot and the end of its journal are new. -/
def Extends (state state' : FakeRunLedger Program) : Prop :=
  ∀ runId run, OrdMap.get? state.runs runId = some run →
    ∃ run', OrdMap.get? state'.runs runId = some run' ∧ run.events <+: run'.events ∧
      run'.stored = { run.stored with snapshot := run'.stored.snapshot }

theorem Extends.refl (state : FakeRunLedger Program) : Extends state state :=
  fun _ run hrun => ⟨run, hrun, List.prefix_refl _, rfl⟩

theorem Extends.trans {state state' state'' : FakeRunLedger Program} (h : Extends state state')
    (h' : Extends state' state'') : Extends state state'' := by
  intro runId run hrun
  obtain ⟨run', hrun', hevents, hstored⟩ := h runId run hrun
  obtain ⟨run'', hrun'', hevents', hstored'⟩ := h' runId run' hrun'
  refine ⟨run'', hrun'', hevents.trans hevents', ?_⟩
  rw [hstored', hstored]

theorem withRun_extends {wire : Wire} {runId : RunId} {state : FakeRunLedger Program}
    {operation : FakeRun Program → Except RunLedgerError (AppendResult × FakeRun Program)}
    (h : Coherent wire state)
    (hoperation : ∀ run result run' seed, Sourced wire seed run.stored.snapshot run.events →
      operation run = .ok (result, run') → run.events <+: run'.events ∧
        run'.stored = { run.stored with snapshot := result.snapshot }) :
    Extends state (withRun runId state operation).2 := by
  unfold withRun
  split
  · exact Extends.refl state
  · rename_i run hrun
    split
    · exact Extends.refl state
    · rename_i result run' hresult
      obtain ⟨hevents, hstored⟩ := hoperation run result run' _ (h.sourced runId run hrun) hresult
      intro id other hother
      by_cases hid : id = runId
      · subst hid
        rw [hrun] at hother
        cases hother
        exact ⟨run', OrdMap.get?_insert_self _ _ _, hevents, by rw [hstored]⟩
      · exact ⟨other, by rwa [OrdMap.get?_insert_ne hid], List.prefix_refl _, rfl⟩

theorem createOrGet_extends [DecidableEq Program] {codec : Codec Program}
    (request : CreateRun Program) (state : FakeRunLedger Program) :
    Extends state (createOrGet codec request state).2 := by
  unfold createOrGet
  split
  · exact Extends.refl state
  · split
    · split
      · exact Extends.refl state
      · split <;> exact Extends.refl state
    · split
      · exact Extends.refl state
      · rename_i hfresh
        intro id run hrun
        have hid : id ≠ request.runId := by
          rintro rfl
          exact hfresh (by rw [OrdMap.contains, hrun]; rfl)
        exact ⟨run, by rwa [OrdMap.get?_insert_ne hid], List.prefix_refl _, rfl⟩

/-- One call only adds runs and events. -/
theorem stepWith_extends [DecidableEq Program] {codec : Codec Program}
    {next : Nat → Except RunLedgerError Nat} (hnext : Numbering next) (call : Call Program)
    {state : FakeRunLedger Program} (h : Coherent codec.wire state) :
    Extends state (stepWith codec next call state).2 := by
  cases call with
  | createOrGet request => exact createOrGet_extends request state
  | append runId events =>
    refine withRun_extends h fun run result run' seed hsourced hresult => ?_
    obtain ⟨-, hstored, hevents, -⟩ := appendLocked_eq_ok hnext hsourced hresult
    exact ⟨⟨_, hevents.symm⟩, hstored⟩
  | requestForceStop runId =>
    refine withRun_extends h fun run result run' seed hsourced hresult => ?_
    split at hresult
    · cases hresult
      exact ⟨List.prefix_refl _, rfl⟩
    · obtain ⟨-, hstored, hevents, -⟩ := appendLocked_eq_ok hnext hsourced hresult
      exact ⟨⟨_, hevents.symm⟩, hstored⟩
  | get | getBySubmissionKey | snapshotAndTail => exact Extends.refl state

/-- All calls keep the store coherent and only add to it. -/
theorem runCalls_extends [DecidableEq Program] {codec : Codec Program}
    {next : Nat → Except RunLedgerError Nat} (hnext : Numbering next)
    (calls : List (Call Program)) {state : FakeRunLedger Program}
    (h : Coherent codec.wire state) :
    Coherent codec.wire (runCalls (stepWith codec next) calls state).2 ∧
      Extends state (runCalls (stepWith codec next) calls state).2 := by
  refine runCalls_invariant (P := fun later => Coherent codec.wire later ∧ Extends state later)
    (fun call later hlater => ?_) calls ⟨h, Extends.refl state⟩
  exact ⟨stepWith_coherent hnext call hlater.1,
    hlater.2.trans (stepWith_extends hnext call hlater.1)⟩

/-! ## Refused calls -/

theorem withRun_error {runId : RunId} {state : FakeRunLedger Program}
    {operation : FakeRun Program → Except RunLedgerError (AppendResult × FakeRun Program)}
    {error : RunLedgerError} (h : (withRun runId state operation).1 = .error error) :
    (withRun runId state operation).2 = state := by
  unfold withRun at h ⊢
  split
  · rfl
  · rename_i run hrun
    rw [hrun] at h
    split
    · rfl
    · rename_i hresult
      simp only [hresult] at h
      cases h

theorem createOrGet_error [DecidableEq Program] {codec : Codec Program}
    {request : CreateRun Program} {state : FakeRunLedger Program} {error : RunLedgerError}
    (h : (createOrGet codec request state).1 = .error error) :
    (createOrGet codec request state).2 = state := by
  unfold createOrGet at h ⊢
  split
  · rfl
  · rename_i hvalid
    rw [if_neg hvalid] at h
    split
    · split
      · rfl
      · split <;> rfl
    · rename_i hkey
      rw [hkey] at h
      dsimp only at h
      split
      · rfl
      · rename_i hfresh
        rw [if_neg hfresh] at h
        cases h

/-- A call that fails leaves the store as it was. -/
theorem stepWith_error [DecidableEq Program] {codec : Codec Program}
    {next : Nat → Except RunLedgerError Nat} {call : Call Program}
    {state : FakeRunLedger Program} {error : RunLedgerError}
    (h : (stepWith codec next call state).1 = .error error) :
    (stepWith codec next call state).2 = state := by
  cases call with
  | createOrGet request => exact createOrGet_error (except_map_eq_error.mp h)
  | append runId events => exact withRun_error (except_map_eq_error.mp h)
  | requestForceStop runId => exact withRun_error (except_map_eq_error.mp h)
  | get | getBySubmissionKey | snapshotAndTail => rfl

end FakeRunLedger

end Zeroshot.Ledger
