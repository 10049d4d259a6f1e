import Zeroshot.Admission.Snapshot

set_option autoImplicit false

/-!
# Accepted lifecycles are determined by their log

The replay of a log reads the projection only to find each verified and each void turn in it
(`foldStep_eq`), so what it computes is a function of the records. `Replayed` relates the fold to
the records so far: which turns were dispatched, which left flight, which have an outcome, and how
the dispatch state follows the stop requests and suspensions; every step keeps it
(`Replayed.step`).

The projection lists as many turns as there are outcomes, and every outcome is in it, so it lists
exactly these (`perm_of_accepted`). **Accepted lifecycles**: `lifecycle_determined_by_log`.
-/

namespace Zeroshot.Admission

/-! ## What a log says -/

def LifecycleEvent.dispatchedTurn : LifecycleEvent → Option TurnId
  | dispatched turnId => some turnId
  | _ => none

/-- The turn an event takes out of flight. -/
def LifecycleEvent.leavingTurn : LifecycleEvent → Option TurnId
  | verified turnId | void turnId => some turnId
  | failed turnId _ _ => some turnId
  | _ => none

def LifecycleEvent.verifiedTurn : LifecycleEvent → Option TurnId
  | verified turnId => some turnId
  | _ => none

def LifecycleEvent.voidTurn : LifecycleEvent → Option TurnId
  | void turnId => some turnId
  | _ => none

def LifecycleEvent.isStopRequest : LifecycleEvent → Bool
  | stopRequested _ _ => true
  | _ => false

/-- What an update says about suspension. -/
def LifecycleEvent.suspension : LifecycleEvent → Option Bool
  | updated _ _ suspended => suspended
  | _ => none

/-- The dispatched turns of a log, in order. -/
def dispatchedTurns (records : List LifecycleRecord) : List TurnId :=
  records.filterMap fun record => record.event.dispatchedTurn

/-- The turns that left flight, in order. -/
def leavingTurns (records : List LifecycleRecord) : List TurnId :=
  records.filterMap fun record => record.event.leavingTurn

/-- The verified turns of a log with their cursors. -/
def verifiedEntries (records : List LifecycleRecord) : List (TurnId × Cursor) :=
  records.filterMap fun record =>
    record.event.verifiedTurn.map fun turnId => (turnId, record.cursor)

/-- The void turns of a log with their cursors. -/
def voidEntries (records : List LifecycleRecord) : List (TurnId × Cursor) :=
  records.filterMap fun record => record.event.voidTurn.map fun turnId => (turnId, record.cursor)

/-- The last update of suspension suspends. -/
def suspendedBy (records : List LifecycleRecord) : Bool :=
  ((records.filterMap fun record => record.event.suspension).getLast?).getD false

/-! ## The replay without the projection -/

/-- The projection lists the outcome of a record. -/
def Listed (lifecycle : LifecycleSnapshot) (record : LifecycleRecord) : Prop :=
  (∀ turnId, record.event = .verified turnId → ∃ turn ∈ lifecycle.verifiedTurns,
    turn.turnId = turnId ∧ turn.cursor = record.cursor) ∧
  (∀ turnId, record.event = .void turnId → ∃ turn ∈ lifecycle.voidTurns,
    turn.turnId = turnId ∧ turn.cursor = record.cursor)

/-- A projection that lists whatever a record reports. -/
def everyTurn (record : LifecycleRecord) : LifecycleSnapshot :=
  ⟨none, none, [],
    (record.event.verifiedTurn.map fun turnId => ⟨turnId, .null, record.cursor⟩).toList,
    (record.event.voidTurn.map fun turnId => ⟨turnId, record.cursor⟩).toList, none, none⟩

/-- The replay, for any projection that lists the outcomes. -/
def replayStep (record : LifecycleRecord) (fold : LifecycleFold) : Option LifecycleFold :=
  foldStep (everyTurn record) record fold

/-- A step reads the projection only to find the outcome of its record. -/
theorem foldStep_eq {lifecycle : LifecycleSnapshot} {record : LifecycleRecord}
    {fold fold' : LifecycleFold} : foldStep lifecycle record fold = some fold' ↔
      replayStep record fold = some fold' ∧ Listed lifecycle record := by
  rw [replayStep, foldStep, foldStep]
  by_cases hfinished : fold.finished = true
  · simp [hfinished]
  rw [if_neg hfinished, if_neg hfinished]
  obtain ⟨cursor, event⟩ := record
  cases event with
  | verified turnId =>
    simp only [foldRecord, foldVerified, Listed, everyTurn, LifecycleEvent.verifiedTurn,
      Option.map_some, Option.toList_some, List.mem_singleton, exists_eq_left, and_self, and_true,
      LifecycleEvent.verified.injEq, forall_eq', reduceCtorEq, false_imp_iff, implies_true]
    split <;> split <;> simp_all
  | void turnId =>
    simp only [foldRecord, foldVoid, Listed, everyTurn, LifecycleEvent.voidTurn,
      Option.map_some, Option.toList_some, List.mem_singleton, exists_eq_left, and_self, and_true,
      LifecycleEvent.void.injEq, forall_eq', reduceCtorEq, false_imp_iff, implies_true, true_and]
    split <;> split <;> simp_all
  | _ => simp [foldRecord, Listed]

/-- The replay of a whole log. -/
theorem run_foldStep_eq {lifecycle : LifecycleSnapshot} {records : List LifecycleRecord}
    {fold fold' : LifecycleFold} : Machine.run (foldStep lifecycle) records fold = some fold' ↔
      Machine.run replayStep records fold = some fold' ∧
        ∀ record ∈ records, Listed lifecycle record := by
  induction records generalizing fold with
  | nil => simp
  | cons record records ih =>
    simp only [Machine.run_cons, foldStep_eq, ih, List.forall_mem_cons]
    constructor
    · rintro ⟨next, ⟨hstep, hlisted⟩, hrun, hrest⟩
      exact ⟨⟨next, hstep, hrun⟩, hlisted, hrest⟩
    · rintro ⟨⟨next, hstep, hrun⟩, hlisted, hrest⟩
      exact ⟨next, ⟨hstep, hlisted⟩, hrun, hrest⟩

/-! ## The fold and the records -/

section Snoc

variable (records : List LifecycleRecord) (record : LifecycleRecord)

@[simp] theorem dispatchedTurns_snoc : dispatchedTurns (records ++ [record]) =
    dispatchedTurns records ++ record.event.dispatchedTurn.toList := by
  rw [dispatchedTurns, List.filterMap_append]
  cases h : record.event.dispatchedTurn <;> simp [dispatchedTurns, h]

@[simp] theorem leavingTurns_snoc : leavingTurns (records ++ [record]) =
    leavingTurns records ++ record.event.leavingTurn.toList := by
  rw [leavingTurns, List.filterMap_append]
  cases h : record.event.leavingTurn <;> simp [leavingTurns, h]

@[simp] theorem length_verifiedEntries_snoc : (verifiedEntries (records ++ [record])).length =
    (verifiedEntries records).length + record.event.verifiedTurn.toList.length := by
  rw [verifiedEntries, List.filterMap_append]
  cases h : record.event.verifiedTurn <;> simp [verifiedEntries, h]

@[simp] theorem length_voidEntries_snoc : (voidEntries (records ++ [record])).length =
    (voidEntries records).length + record.event.voidTurn.toList.length := by
  rw [voidEntries, List.filterMap_append]
  cases h : record.event.voidTurn <;> simp [voidEntries, h]

@[simp] theorem suspendedBy_snoc : suspendedBy (records ++ [record]) =
    record.event.suspension.getD (suspendedBy records) := by
  rw [suspendedBy, List.filterMap_append]
  cases h : record.event.suspension <;> simp [suspendedBy, h]

end Snoc

/-- The turns the fold holds are those of the records so far. -/
structure Flight (records : List LifecycleRecord) (dispatched inFlight : Finset TurnId) : Prop where
  mem_dispatched : ∀ turnId, turnId ∈ dispatched ↔ turnId ∈ dispatchedTurns records
  dispatchedOnce : (dispatchedTurns records).Nodup
  mem_inFlight : ∀ turnId, turnId ∈ inFlight ↔
    turnId ∈ dispatchedTurns records ∧ turnId ∉ leavingTurns records
  leftOnce : (leavingTurns records).Nodup
  left : ∀ turnId ∈ leavingTurns records, turnId ∈ dispatchedTurns records

namespace Flight

variable {records : List LifecycleRecord} {record : LifecycleRecord}
  {dispatched inFlight : Finset TurnId} {turnId : TurnId}

theorem nil : Flight [] ∅ ∅ where
  mem_dispatched _ := by simp [dispatchedTurns]
  dispatchedOnce := List.nodup_nil
  mem_inFlight _ := by simp [dispatchedTurns]
  leftOnce := List.nodup_nil
  left _ h := absurd h List.not_mem_nil

theorem other (h : Flight records dispatched inFlight)
    (hdispatched : record.event.dispatchedTurn = none)
    (hleaving : record.event.leavingTurn = none) :
    Flight (records ++ [record]) dispatched inFlight := by
  have hsame : dispatchedTurns (records ++ [record]) = dispatchedTurns records := by
    simp [hdispatched]
  have hsame' : leavingTurns (records ++ [record]) = leavingTurns records := by
    simp [hleaving]
  obtain ⟨hmem, honce, hflight, hleft, hsent⟩ := h
  rw [← hsame] at hmem honce hflight hsent
  rw [← hsame'] at hflight hleft hsent
  exact ⟨hmem, honce, hflight, hleft, hsent⟩

theorem dispatch (h : Flight records dispatched inFlight) (hnew : turnId ∉ dispatched)
    (hdispatched : record.event.dispatchedTurn = some turnId)
    (hleaving : record.event.leavingTurn = none) :
    Flight (records ++ [record]) (insert turnId dispatched) (insert turnId inFlight) := by
  have hnew' : turnId ∉ dispatchedTurns records := fun hmem => hnew ((h.mem_dispatched _).mpr hmem)
  have hunleft : turnId ∉ leavingTurns records := fun hmem => hnew' (h.left _ hmem)
  constructor
  · intro other
    simp [hdispatched, h.mem_dispatched, or_comm]
  · simpa [hdispatched, List.nodup_append] using
      ⟨h.dispatchedOnce, fun other hother heq => hnew' (heq ▸ hother)⟩
  · intro other
    by_cases hother : other = turnId
    · simp [hother, hdispatched, hleaving, hunleft]
    · simp [hother, hdispatched, hleaving, h.mem_inFlight]
  · simpa [hleaving] using h.leftOnce
  · intro other hother
    simp only [leavingTurns_snoc, hleaving, Option.toList_none, List.append_nil] at hother
    simp [h.left other hother]

theorem leave (h : Flight records dispatched inFlight) (hflight : turnId ∈ inFlight)
    (hdispatched : record.event.dispatchedTurn = none)
    (hleaving : record.event.leavingTurn = some turnId) :
    Flight (records ++ [record]) dispatched (inFlight.erase turnId) := by
  obtain ⟨hsent, hunleft⟩ := (h.mem_inFlight turnId).mp hflight
  constructor
  · intro other
    simp [hdispatched, h.mem_dispatched]
  · simpa [hdispatched] using h.dispatchedOnce
  · intro other
    rw [Finset.mem_erase, h.mem_inFlight]
    simp only [dispatchedTurns_snoc, leavingTurns_snoc, hdispatched, hleaving, Option.toList_none,
      Option.toList_some, List.append_nil, List.mem_append, List.mem_singleton, not_or]
    tauto
  · simpa [hleaving, List.nodup_append] using
      ⟨h.leftOnce, fun other hother heq => hunleft (heq ▸ hother)⟩
  · intro other hother
    simp only [leavingTurns_snoc, hleaving, Option.toList_some, List.mem_append,
      List.mem_singleton] at hother
    rw [dispatchedTurns_snoc, hdispatched, Option.toList_none, List.append_nil]
    rcases hother with hother | rfl
    · exact h.left other hother
    · exact hsent

end Flight

/-- The dispatch state follows the stop requests and the suspensions so far. -/
structure Stopping (records : List LifecycleRecord) (state : DispatchState) : Prop where
  unstopped : state = .active ∨ state = .suspended →
    ∀ record ∈ records, record.event.isStopRequest = false
  unsuspended : state = .active → suspendedBy records = false
  forced : state = .forceStopping →
    ∃ record ∈ records, record.event = .stopRequested .force .force

namespace Stopping

variable {records : List LifecycleRecord} {record : LifecycleRecord} {state : DispatchState}

theorem nil : Stopping [] .active where
  unstopped _ _ h := absurd h List.not_mem_nil
  unsuspended _ := rfl
  forced h := absurd h (by decide)

theorem other (h : Stopping records state) (hstop : record.event.isStopRequest = false)
    (hsuspension : record.event.suspension = none) : Stopping (records ++ [record]) state where
  unstopped hstate := by
    rw [List.forall_mem_append, List.forall_mem_singleton]
    exact ⟨h.unstopped hstate, hstop⟩
  unsuspended hstate := by
    rw [suspendedBy_snoc, hsuspension]
    exact h.unsuspended hstate
  forced hstate := by
    obtain ⟨earlier, hearlier, hevent⟩ := h.forced hstate
    exact ⟨earlier, List.mem_append_left _ hearlier, hevent⟩

theorem stopped (records : List LifecycleRecord) : Stopping records .stopped where
  unstopped h := absurd h (by decide)
  unsuspended h := absurd h (by decide)
  forced h := absurd h (by decide)

theorem suspend (h : Stopping records state) (hstate : state = .active ∨ state = .suspended)
    (hstop : record.event.isStopRequest = false) {suspended : Bool}
    (hsuspension : record.event.suspension = some suspended) :
    Stopping (records ++ [record]) (if suspended then .suspended else .active) where
  unstopped _ := by
    rw [List.forall_mem_append, List.forall_mem_singleton]
    exact ⟨h.unstopped hstate, hstop⟩
  unsuspended hactive := by
    rw [suspendedBy_snoc, hsuspension]
    cases suspended with
    | true => cases hactive
    | false => rfl
  forced hforce := by cases suspended <;> cases hforce

theorem request {effectiveMode : StopMode} (records : List LifecycleRecord)
    (hevent : record.event = .stopRequested effectiveMode effectiveMode) :
    Stopping (records ++ [record]) effectiveMode.stopping where
  unstopped h := by cases effectiveMode <;> rcases h with h | h <;> cases h
  unsuspended h := by cases effectiveMode <;> cases h
  forced h := by
    cases effectiveMode with
    | drain => cases h
    | force => exact ⟨record, List.mem_append_right _ List.mem_cons_self, hevent⟩

end Stopping

/-- The outcomes of the records so far. -/
def outcomeCount (records : List LifecycleRecord) : Nat :=
  (verifiedEntries records).length + (voidEntries records).length

theorem outcomeCount_snoc (records : List LifecycleRecord) (record : LifecycleRecord) :
    outcomeCount (records ++ [record]) = outcomeCount records +
      (record.event.verifiedTurn.toList.length + record.event.voidTurn.toList.length) := by
  simp only [outcomeCount, length_verifiedEntries_snoc, length_voidEntries_snoc]
  omega

/-- What the fold knows about the records so far. -/
structure Replayed (records : List LifecycleRecord) (fold : LifecycleFold) : Prop where
  flight : Flight records fold.dispatched fold.inFlight
  stopping : Stopping records fold.operational.dispatchState
  outcomes : fold.outcomes.card = outcomeCount records

theorem of_syncInFlight {fold fold' : LifecycleFold} (h : syncInFlight fold = some fold') :
    fold' = { fold with
      operational := { fold.operational with inFlight := fold.inFlight.card } } := by
  rw [syncInFlight] at h
  split at h
  · exact (Option.some.inj h).symm
  · cases h

/-- **Every step of the replay keeps the relation.** -/
theorem Replayed.step {records : List LifecycleRecord} {record : LifecycleRecord}
    {fold fold' : LifecycleFold} (h : Replayed records fold)
    (hstep : replayStep record fold = some fold') : Replayed (records ++ [record]) fold' := by
  obtain ⟨hflight, hstopping, houtcomes⟩ := h
  have hcount := outcomeCount_snoc records record
  rw [replayStep, foldStep] at hstep
  split at hstep
  · cases hstep
  obtain ⟨cursor, event⟩ := record
  cases event with
  | dispatched turnId =>
    simp only [foldRecord, foldDispatch] at hstep
    split at hstep
    · cases hstep
    · rename_i hfree
      have hnew : turnId ∉ fold.dispatched := fun hmem => hfree (.inr (.inl hmem))
      split at hstep <;> rw [of_syncInFlight hstep]
      · exact ⟨hflight.dispatch hnew rfl rfl, hstopping.other rfl rfl, houtcomes.trans hcount.symm⟩
      · exact ⟨hflight.dispatch hnew rfl rfl, hstopping.other rfl rfl, houtcomes.trans hcount.symm⟩
  | updated labels logLevel suspended =>
    simp only [foldRecord, foldUpdate] at hstep
    split at hstep
    · cases hstep
    · rename_i hopen
      have hstate : fold.operational.dispatchState = .active ∨
          fold.operational.dispatchState = .suspended := by
        by_contra hclosed
        exact hopen (.inl (not_or.mp hclosed))
      cases hstep
      refine ⟨hflight.other rfl rfl, ?_, houtcomes.trans hcount.symm⟩
      cases suspended with
      | none => exact hstopping.other rfl rfl
      | some suspended =>
        have hnext := hstopping.suspend hstate
          (show (LifecycleRecord.mk cursor
            (.updated labels logLevel (some suspended))).event.isStopRequest = false from rfl) rfl
        cases suspended <;> exact hnext
  | stopRequested acceptedMode effectiveMode =>
    simp only [foldRecord, foldStopRequest] at hstep
    split at hstep
    · rename_i hvalid
      have hsame : acceptedMode = effectiveMode := by
        cases hstate : fold.operational.dispatchState <;>
          simp [hstate, stopRequestIsValid] at hvalid <;> exact hvalid
      subst hsame
      cases hstep
      exact ⟨hflight.other rfl rfl, Stopping.request records rfl, houtcomes.trans hcount.symm⟩
    · cases hstep
  | verified turnId =>
    simp only [foldRecord, foldVerified] at hstep
    split at hstep
    · rename_i hverified
      obtain ⟨-, -, hmem, hfresh, -⟩ := hverified
      rw [of_syncInFlight hstep]
      refine ⟨hflight.leave hmem rfl rfl, hstopping.other rfl rfl, ?_⟩
      exact (Finset.card_insert_of_notMem hfresh).trans
        ((congrArg (· + 1) houtcomes).trans hcount.symm)
    · cases hstep
  | void turnId =>
    simp only [foldRecord, foldVoid] at hstep
    split at hstep
    · rename_i hvoid
      obtain ⟨-, hmem, hfresh, -⟩ := hvoid
      rw [of_syncInFlight hstep]
      refine ⟨hflight.leave hmem rfl rfl, hstopping.other rfl rfl, ?_⟩
      exact (Finset.card_insert_of_notMem hfresh).trans
        ((congrArg (· + 1) houtcomes).trans hcount.symm)
    · cases hstep
  | finished mode =>
    simp only [foldRecord, foldFinished] at hstep
    split at hstep
    · cases hstep
    · cases hstep
      exact ⟨hflight.other rfl rfl, Stopping.stopped _, houtcomes.trans hcount.symm⟩
  | failed turnId kind retryability =>
    simp only [foldRecord, foldFailed] at hstep
    split at hstep
    · cases hstep
    · rename_i hopen
      have hmem : turnId ∈ fold.inFlight := by
        by_contra hmissing
        exact hopen (.inr (.inr hmissing))
      rw [of_syncInFlight hstep]
      exact ⟨hflight.leave hmem rfl rfl, hstopping.other rfl rfl, houtcomes.trans hcount.symm⟩
  | retried failedTurnId retryTurnId =>
    simp only [foldRecord, foldRetried] at hstep
    split at hstep
    · cases hstep
    · cases hstep
      exact ⟨hflight.other rfl rfl, hstopping.other rfl rfl, houtcomes.trans hcount.symm⟩

/-- A replayed log is related to its fold. -/
theorem replayed_of_run {records : List LifecycleRecord} {fold : LifecycleFold}
    (h : Machine.run replayStep records .default = some fold) : Replayed records fold :=
  Machine.run_history (fun _ _ _ _ hreplayed hstep => hreplayed.step hstep) h
    ⟨Flight.nil, Stopping.nil, rfl⟩

/-! ## What one record needs -/

section Positions

variable {before after : List LifecycleRecord} {record : LifecycleRecord} {fold : LifecycleFold}

/-- The fold before a record of a replayed log, and the step it takes there. -/
theorem exists_step_of_run
    (h : Machine.run replayStep (before ++ record :: after) .default = some fold) :
    ∃ earlier later, Replayed before earlier ∧ earlier.finished = false ∧
      foldRecord earlier (everyTurn record) record = some later ∧
      Machine.run replayStep after later = some fold := by
  obtain ⟨earlier, hbefore, hrest⟩ := Machine.run_append.mp h
  obtain ⟨later, hstep, hafter⟩ := Machine.run_cons.mp hrest
  rw [replayStep, foldStep] at hstep
  split at hstep
  · cases hstep
  · rename_i hfinished
    exact ⟨earlier, later, replayed_of_run hbefore, Bool.eq_false_iff.mpr hfinished, hstep, hafter⟩

/-- A turn is dispatched before any stop request and not while suspended. -/
theorem dispatched_while_active
    (h : Machine.run replayStep (before ++ record :: after) .default = some fold)
    {turnId : TurnId} (hevent : record.event = .dispatched turnId) :
    (∀ earlier ∈ before, earlier.event.isStopRequest = false) ∧ suspendedBy before = false := by
  obtain ⟨earlier, later, hreplayed, -, hstep, -⟩ := exists_step_of_run h
  rw [foldRecord, hevent] at hstep
  simp only [foldDispatch] at hstep
  split at hstep
  · cases hstep
  · rename_i hfree
    have hactive : earlier.operational.dispatchState = .active := by
      by_contra hinactive
      exact hfree (.inl hinactive)
    exact ⟨hreplayed.stopping.unstopped (.inl hactive), hreplayed.stopping.unsuspended hactive⟩

/-- A turn is voided after a force stop. -/
theorem void_after_force
    (h : Machine.run replayStep (before ++ record :: after) .default = some fold)
    {turnId : TurnId} (hevent : record.event = .void turnId) :
    ∃ earlier ∈ before, earlier.event = .stopRequested .force .force := by
  obtain ⟨earlier, later, hreplayed, -, hstep, -⟩ := exists_step_of_run h
  rw [foldRecord, hevent] at hstep
  simp only [foldVoid] at hstep
  split at hstep
  · rename_i hvoid
    exact hreplayed.stopping.forced hvoid.1
  · cases hstep

/-- A finish ends the log, with nothing in flight. -/
theorem finished_last
    (h : Machine.run replayStep (before ++ record :: after) .default = some fold)
    {mode : StopMode} (hevent : record.event = .finished mode) :
    after = [] ∧ ∀ turnId ∈ dispatchedTurns before, turnId ∈ leavingTurns before := by
  obtain ⟨earlier, later, hreplayed, -, hstep, hafter⟩ := exists_step_of_run h
  rw [foldRecord, hevent] at hstep
  simp only [foldFinished] at hstep
  split at hstep
  · cases hstep
  · rename_i hidle
    cases hstep
    constructor
    · cases after with
      | nil => rfl
      | cons next after =>
        -- The loop stops at the first record behind a finish.
        obtain ⟨_, hnext, -⟩ := Machine.run_cons.mp hafter
        cases hnext
    · intro turnId hturn
      by_contra hunleft
      have hflight := (hreplayed.flight.mem_inFlight turnId).mpr ⟨hturn, hunleft⟩
      have hempty : earlier.inFlight = ∅ := by
        by_contra hbusy
        exact hidle (.inl hbusy)
      rw [hempty] at hflight
      exact absurd hflight (Finset.notMem_empty turnId)

end Positions

/-! ## The projection -/

/-- The entries of a projection's verified turns. -/
def LifecycleSnapshot.verifiedEntries (lifecycle : LifecycleSnapshot) : List (TurnId × Cursor) :=
  lifecycle.verifiedTurns.map fun turn => (turn.turnId, turn.cursor)

/-- The entries of a projection's void turns. -/
def LifecycleSnapshot.voidEntries (lifecycle : LifecycleSnapshot) : List (TurnId × Cursor) :=
  lifecycle.voidTurns.map fun turn => (turn.turnId, turn.cursor)

/-- What an accepted aggregate amounts to: the fold of its log, which lists every outcome. -/
structure Accepted (lifecycle : LifecycleSnapshot) (fold : LifecycleFold) : Prop where
  run : Machine.run replayStep lifecycle.records .default = some fold
  listed : ∀ record ∈ lifecycle.records, Listed lifecycle record
  outcomes : fold.outcomes.card = lifecycle.verifiedTurns.length + lifecycle.voidTurns.length
  failed : lifecycle.pendingFailedFrontier = fold.pendingFailedFrontier
  retry : lifecycle.pendingRetryTurn = fold.pendingRetryTurn
  operational : lifecycle.operational = some fold.operational

theorem accepted_of_foldIsValid {lifecycle : LifecycleSnapshot}
    (h : lifecycleRecordFoldIsValid lifecycle = true) : ∃ fold, Accepted lifecycle fold := by
  rw [lifecycleRecordFoldIsValid] at h
  cases hrun : Machine.run (foldStep lifecycle) lifecycle.records .default with
  | none =>
    rw [hrun] at h
    cases h
  | some fold =>
    rw [hrun] at h
    simp only [foldCountsMatch, Bool.and_eq_true, decide_eq_true_eq] at h
    obtain ⟨hreplay, hlisted⟩ := run_foldStep_eq.mp hrun
    exact ⟨fold, hreplay, hlisted, h.1.1.1.2, h.1.1.2, h.1.2, h.2⟩

theorem valid_of_ok {valid : Bool} {error : BackendError}
    (h : (if valid then .ok () else .error error : Except BackendError Unit) = .ok ()) :
    valid = true := by
  cases valid with
  | true => rfl
  | false => cases h

/-- An accepted aggregate has no records and no outcomes, or its log replays to its projection. -/
theorem accepted_cases {snapshot : AdmissionSnapshot} {lifecycle : LifecycleSnapshot}
    (h : validateSnapshot snapshot lifecycle = .ok ()) :
    (lifecycle.records = [] ∧ lifecycle.verifiedTurns = [] ∧ lifecycle.voidTurns = []) ∨
      ∃ fold, Accepted lifecycle fold := by
  have hdefault : lifecycle.isDefault = true →
      lifecycle.records = [] ∧ lifecycle.verifiedTurns = [] ∧ lifecycle.voidTurns = [] := by
    intro hempty
    simp only [LifecycleSnapshot.isDefault, Bool.and_eq_true, List.isEmpty_iff] at hempty
    exact ⟨hempty.1.1.1.1.2, hempty.1.1.1.2, hempty.1.1.2⟩
  have hcommitted : lifecycleIsCommitted snapshot lifecycle = true →
      (lifecycle.records = [] ∧ lifecycle.verifiedTurns = [] ∧ lifecycle.voidTurns = []) ∨
        ∃ fold, Accepted lifecycle fold := by
    intro hcommitted
    rw [lifecycleIsCommitted] at hcommitted
    split at hcommitted
    · simp only [Bool.and_eq_true, Bool.or_eq_true] at hcommitted
      rcases hcommitted.2 with hnatural | hfold
      · simp only [naturalTerminalLifecycle, Bool.and_eq_true, List.isEmpty_iff] at hnatural
        exact .inl ⟨hnatural.1.1.1.1.2, hnatural.1.1.1.2, hnatural.1.1.2⟩
      · exact .inr (accepted_of_foldIsValid hfold.2)
    · cases hcommitted
  have hvalid := valid_of_ok h
  cases hphase : snapshot.control.phase with
  | empty =>
    simp only [hphase, Bool.and_eq_true] at hvalid
    exact .inl (hdefault hvalid.2)
  | admitting =>
    simp only [hphase, Bool.or_eq_true, Bool.and_eq_true] at hvalid
    rcases hvalid with hempty | hvalid
    · exact .inl (hdefault hempty.2)
    · exact hcommitted hvalid.2
  | running | finished | deleting =>
    simp only [hphase, Bool.and_eq_true] at hvalid
    exact hcommitted hvalid.2

theorem sublist_filterMap {α β : Type} {f g : α → Option β} (h : ∀ a b, f a = some b → g a = some b)
    (as : List α) : (as.filterMap f).Sublist (as.filterMap g) := by
  induction as with
  | nil => exact List.Sublist.refl _
  | cons a as ih =>
    rw [List.filterMap_cons, List.filterMap_cons]
    cases hf : f a with
    | none =>
      cases g a with
      | none => exact ih
      | some b => exact ih.cons b
    | some b =>
      rw [h a b hf]
      exact ih.cons_cons b

theorem nodup_verifiedTurns {records : List LifecycleRecord} (h : (leavingTurns records).Nodup) :
    ((verifiedEntries records).map Prod.fst).Nodup := by
  refine h.sublist ?_
  rw [verifiedEntries, List.map_filterMap]
  refine sublist_filterMap (fun record turnId hturn => ?_) records
  obtain ⟨cursor, event⟩ := record
  cases event <;> simp_all [LifecycleEvent.verifiedTurn, LifecycleEvent.leavingTurn]

theorem nodup_voidTurns {records : List LifecycleRecord} (h : (leavingTurns records).Nodup) :
    ((voidEntries records).map Prod.fst).Nodup := by
  refine h.sublist ?_
  rw [voidEntries, List.map_filterMap]
  refine sublist_filterMap (fun record turnId hturn => ?_) records
  obtain ⟨cursor, event⟩ := record
  cases event <;> simp_all [LifecycleEvent.voidTurn, LifecycleEvent.leavingTurn]

/-- **The projection lists exactly the outcomes of the log.** Every outcome is listed, and there are
no more entries than outcomes. -/
theorem perm_of_accepted {lifecycle : LifecycleSnapshot} {fold : LifecycleFold}
    (h : Accepted lifecycle fold) :
    lifecycle.verifiedEntries.Perm (verifiedEntries lifecycle.records) ∧
      lifecycle.voidEntries.Perm (voidEntries lifecycle.records) := by
  have hreplayed := replayed_of_run h.run
  have hverified : (verifiedEntries lifecycle.records).Subperm lifecycle.verifiedEntries := by
    refine List.subperm_of_subset (nodup_verifiedTurns hreplayed.flight.leftOnce).of_map ?_
    intro entry hentry
    obtain ⟨record, hrecord, hevent⟩ := List.mem_filterMap.mp hentry
    obtain ⟨turnId, hturn, rfl⟩ := Option.map_eq_some_iff.mp hevent
    have hverified : record.event = .verified turnId := by
      cases hcase : record.event <;> simp_all [LifecycleEvent.verifiedTurn]
    obtain ⟨turn, hmem, hid, hcursor⟩ := (h.listed record hrecord).1 turnId hverified
    exact List.mem_map.mpr ⟨turn, hmem, Prod.ext hid hcursor⟩
  have hvoid : (voidEntries lifecycle.records).Subperm lifecycle.voidEntries := by
    refine List.subperm_of_subset (nodup_voidTurns hreplayed.flight.leftOnce).of_map ?_
    intro entry hentry
    obtain ⟨record, hrecord, hevent⟩ := List.mem_filterMap.mp hentry
    obtain ⟨turnId, hturn, rfl⟩ := Option.map_eq_some_iff.mp hevent
    have hvoid : record.event = .void turnId := by
      cases hcase : record.event <;> simp_all [LifecycleEvent.voidTurn]
    obtain ⟨turn, hmem, hid, hcursor⟩ := (h.listed record hrecord).2 turnId hvoid
    exact List.mem_map.mpr ⟨turn, hmem, Prod.ext hid hcursor⟩
  have hcount :
      (verifiedEntries lifecycle.records).length + (voidEntries lifecycle.records).length =
        lifecycle.verifiedEntries.length + lifecycle.voidEntries.length := by
    rw [LifecycleSnapshot.verifiedEntries, LifecycleSnapshot.voidEntries, List.length_map,
      List.length_map, ← h.outcomes, hreplayed.outcomes, outcomeCount]
  have hle := hverified.length_le
  have hle' := hvoid.length_le
  exact ⟨(hverified.perm_of_length_le (by omega)).symm, (hvoid.perm_of_length_le (by omega)).symm⟩

/-- **Accepted lifecycle state is determined by its log.** Two accepted aggregates of one phase with
the same records have the same operational status, pending turns and outcome entries. In every
accepted log each turn is dispatched and leaves flight at most once, is dispatched before any stop
request and not while suspended, is voided only after a force stop, a finish comes last with nothing
in flight, and the projection lists the verified and the void turns, each once. -/
theorem lifecycle_determined_by_log :
    (∀ (snapshot snapshot' : AdmissionSnapshot) (lifecycle lifecycle' : LifecycleSnapshot),
      validateSnapshot snapshot lifecycle = .ok () →
      validateSnapshot snapshot' lifecycle' = .ok () →
      snapshot.control.phase = snapshot'.control.phase →
      lifecycle.records = lifecycle'.records → lifecycle.records ≠ [] →
        lifecycle.operational = lifecycle'.operational ∧
        lifecycle.pendingFailedFrontier = lifecycle'.pendingFailedFrontier ∧
        lifecycle.pendingRetryTurn = lifecycle'.pendingRetryTurn ∧
        (∀ entry, entry ∈ lifecycle.verifiedEntries ↔ entry ∈ lifecycle'.verifiedEntries) ∧
        ∀ entry, entry ∈ lifecycle.voidEntries ↔ entry ∈ lifecycle'.voidEntries) ∧
    ∀ (snapshot : AdmissionSnapshot) (lifecycle : LifecycleSnapshot),
      validateSnapshot snapshot lifecycle = .ok () →
        (dispatchedTurns lifecycle.records).Nodup ∧
        (leavingTurns lifecycle.records).Nodup ∧
        (∀ before record after, lifecycle.records = before ++ record :: after →
          (∀ turnId, record.event = .dispatched turnId →
            (∀ earlier ∈ before, earlier.event.isStopRequest = false) ∧
              suspendedBy before = false) ∧
          (∀ turnId, record.event = .void turnId →
            ∃ earlier ∈ before, earlier.event = .stopRequested .force .force) ∧
          ∀ mode, record.event = .finished mode →
            after = [] ∧ ∀ turnId ∈ dispatchedTurns before, turnId ∈ leavingTurns before) ∧
        lifecycle.verifiedEntries.Perm (verifiedEntries lifecycle.records) ∧
        lifecycle.voidEntries.Perm (voidEntries lifecycle.records) ∧
        (lifecycle.verifiedTurns.map VerifiedTurn.turnId).Nodup ∧
        (lifecycle.voidTurns.map VoidTurn.turnId).Nodup := by
  constructor
  · intro snapshot snapshot' lifecycle lifecycle' hok hok' _ hrecords hne
    obtain ⟨fold, hfold⟩ := (accepted_cases hok).resolve_left fun h => hne h.1
    obtain ⟨fold', hfold'⟩ := (accepted_cases hok').resolve_left fun h => hne (hrecords.trans h.1)
    -- Both replays are the same run.
    have hsame : fold = fold' := by
      have hrun := hfold.run
      rw [hrecords, hfold'.run] at hrun
      exact (Option.some.inj hrun).symm
    subst hsame
    obtain ⟨hverified, hvoid⟩ := perm_of_accepted hfold
    obtain ⟨hverified', hvoid'⟩ := perm_of_accepted hfold'
    rw [hrecords] at hverified hvoid
    exact ⟨hfold.operational.trans hfold'.operational.symm, hfold.failed.trans hfold'.failed.symm,
      hfold.retry.trans hfold'.retry.symm, fun _ => (hverified.trans hverified'.symm).mem_iff,
      fun _ => (hvoid.trans hvoid'.symm).mem_iff⟩
  · intro snapshot lifecycle hok
    rcases accepted_cases hok with ⟨hrecords, hverified, hvoid⟩ | ⟨fold, hfold⟩
    · rw [LifecycleSnapshot.verifiedEntries, LifecycleSnapshot.voidEntries, hrecords, hverified,
        hvoid]
      refine ⟨List.nodup_nil, List.nodup_nil, ?_, List.Perm.refl _, List.Perm.refl _,
        List.nodup_nil, List.nodup_nil⟩
      intro before record after hsplit
      cases before <;> cases hsplit
    · have hflight := (replayed_of_run hfold.run).flight
      obtain ⟨hverified, hvoid⟩ := perm_of_accepted hfold
      refine ⟨hflight.dispatchedOnce, hflight.leftOnce, ?_, hverified, hvoid, ?_, ?_⟩
      · intro before record after hsplit
        have hrun := hfold.run
        rw [hsplit] at hrun
        exact ⟨fun _ => dispatched_while_active hrun, fun _ => void_after_force hrun,
          fun _ => finished_last hrun⟩
      · have hnodup := (hverified.map Prod.fst).nodup_iff.mpr (nodup_verifiedTurns hflight.leftOnce)
        rwa [LifecycleSnapshot.verifiedEntries, List.map_map] at hnodup
      · have hnodup := (hvoid.map Prod.fst).nodup_iff.mpr (nodup_voidTurns hflight.leftOnce)
        rwa [LifecycleSnapshot.voidEntries, List.map_map] at hnodup

/-! ### A run that is stopped -/

theorem validateIdentifier_done : validateIdentifier "done" = true := by decide

theorem validateStableRef_deny : validateStableRef "deny@1" = true := by decide

/-- A graph that succeeds at once. -/
def doneGraph : GraphSpec where
  profile := .full
  initialInput := .null
  policy := ⟨⟨"deny@1", validateStableRef_deny⟩, .deny⟩
  root := .succeed ⟨⟨"done", validateIdentifier_done⟩, .null, []⟩
  wellFormed := by decide

def doneIr : CompiledGraphIr :=
  ⟨doneGraph, ⟨.acyclic [⟨"done", validateIdentifier_done⟩], .one, .one, []⟩⟩

/-- The graph was admitted, and its run has finished. -/
def stoppedSnapshot : AdmissionSnapshot where
  control :=
    { spec := some doneGraph
      compiledIr := some doneIr
      generation := some ⟨1, PositiveInteger.one.safe⟩
      runId := some ⟨"run"⟩
      phase := .finished
      cursor := some ⟨"0"⟩ }
  seed := some ⟨⟨"run"⟩, .null, ⟨"0"⟩⟩

/-- A turn is verified, another fails and is retried, the run is suspended and resumed, and a stop
by force voids the two turns in flight. -/
def stoppedEvents : List LifecycleEvent :=
  [.dispatched ⟨"a"⟩, .verified ⟨"a"⟩, .dispatched ⟨"b"⟩, .failed ⟨"b"⟩ .timeout .retryable,
    .retried ⟨"b"⟩ ⟨"c"⟩, .dispatched ⟨"c"⟩, .updated none none (some true),
    .updated none (some .warn) (some false), .dispatched ⟨"d"⟩, .stopRequested .force .force,
    .void ⟨"d"⟩, .void ⟨"c"⟩, .finished .force]

/-- The log of these events; the output of the verified turn and the order of the void turns are not
in it. -/
def stoppedLifecycle (output : Value) (voidTurns : List VoidTurn) : LifecycleSnapshot where
  operational := some
    { OperationalStatus.default with
      logLevel := .warn
      dispatchState := .stopped
      stopMode := some .force }
  latestCursor := some ⟨"13"⟩
  records := (stoppedEvents.zip ["1", "2", "3", "4", "5", "6", "7", "8", "9", "10", "11", "12",
    "13"]).map fun (event, cursor) => ⟨⟨cursor⟩, event⟩
  verifiedTurns := [⟨⟨"a"⟩, output, ⟨"2"⟩⟩]
  voidTurns := voidTurns
  pendingFailedFrontier := none
  pendingRetryTurn := none

def voidC : VoidTurn := ⟨⟨"c"⟩, ⟨"12"⟩⟩
def voidD : VoidTurn := ⟨⟨"d"⟩, ⟨"11"⟩⟩

theorem validateSnapshot_stopped {output : Value} {voidTurns : List VoidTurn}
    (hlifecycle : lifecycleIsCommitted stoppedSnapshot (stoppedLifecycle output voidTurns) = true) :
    validateSnapshot stoppedSnapshot (stoppedLifecycle output voidTurns) = .ok () := by
  have hbytes : doneIr.canonicalBytes.isOk = true := by
    obtain ⟨bytes, hbytes⟩ := writeCanonicalJson_of_floatFree _
      (CompiledGraphIr.toValue_floatFree doneIr doneGraph.root)
    have hroot : normalizeNode doneIr.graph.root = .ok doneGraph.root := rfl
    rw [CompiledGraphIr.canonicalBytes, hroot, show (Except.ok doneGraph.root >>= fun root =>
      writeCanonicalJson (doneIr.toValue root)) = .ok bytes from hbytes]
    rfl
  have hcommitted : snapshotIsCommitted stoppedSnapshot = true := by
    rw [snapshotIsCommitted]
    dsimp only [stoppedSnapshot]
    rw [hbytes]
    rfl
  rw [validateSnapshot, hcommitted, hlifecycle]
  rfl

/-- Two accepted aggregates of one stopped run, and what its log says about the turns. -/
theorem lifecycle_determined_by_log_stopped :
    validateSnapshot stoppedSnapshot (stoppedLifecycle .null [voidC, voidD]) = .ok () ∧
    validateSnapshot stoppedSnapshot (stoppedLifecycle (.bool true) [voidD, voidC]) = .ok () ∧
    (stoppedLifecycle .null [voidC, voidD]).operational =
      (stoppedLifecycle (.bool true) [voidD, voidC]).operational ∧
    dispatchedTurns (stoppedLifecycle .null [voidC, voidD]).records =
      [⟨"a"⟩, ⟨"b"⟩, ⟨"c"⟩, ⟨"d"⟩] ∧
    (leavingTurns (stoppedLifecycle .null [voidC, voidD]).records).Nodup ∧
    [((⟨"c"⟩ : TurnId), (⟨"12"⟩ : Cursor)), (⟨"d"⟩, ⟨"11"⟩)].Perm
      (voidEntries (stoppedLifecycle .null [voidC, voidD]).records) := by
  have hfirst := validateSnapshot_stopped
    (rfl : lifecycleIsCommitted stoppedSnapshot (stoppedLifecycle .null [voidC, voidD]) = true)
  have hsecond := validateSnapshot_stopped
    (rfl : lifecycleIsCommitted stoppedSnapshot (stoppedLifecycle (.bool true) [voidD, voidC]) =
      true)
  obtain ⟨hoperational, -⟩ := lifecycle_determined_by_log.1 stoppedSnapshot stoppedSnapshot _ _
    hfirst hsecond rfl rfl (List.cons_ne_nil _ _)
  obtain ⟨-, hleft, -, -, hvoid, -⟩ := lifecycle_determined_by_log.2 stoppedSnapshot _ hfirst
  exact ⟨hfirst, hsecond, hoperational, rfl, hleft, hvoid⟩

end Zeroshot.Admission
