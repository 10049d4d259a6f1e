import Zeroshot.Supervisor.Dispatches
import Mathlib.Logic.Relation

set_option autoImplicit false

/-!
# Resumed runs

A resumed run starts with the whole history of a run at rest, imported in one batch
(`initialize_allocated`). The history of a supervised run is ordered by identity and by position,
its seed first, so the ledger accepts it, and the new run has the same history. Chains of resumes
are handled by `Continuing`, which the import establishes again.

* **`continuation_faithful`**: resuming, along chains of any length.
-/

namespace Zeroshot.Supervisor

open Ledger

/-! ## Reductions -/

/-- One past the largest identity. -/
def nextIdentity (identities : List Nat) : Except NativeV2SupervisorError Nat :=
  let last := identities.max?.getD 0
  if last + 1 < 2 ^ 64 then .ok (last + 1) else .error .invalidState

/-- `next_node_instance`. -/
def nextNodeInstance (executions : List DurableExecution) : Except NativeV2SupervisorError Nat :=
  nextIdentity (executions.map fun e => e.nodeInstance.get)

/-- `next_execution`. -/
def nextExecution (executions : List DurableExecution) : Except NativeV2SupervisorError Nat :=
  nextIdentity (executions.map fun e => e.execution.get)

/-- `reduce`, for the root and the input of the admission. -/
def reduce (root : GraphNode) (initialInput : Value) (snapshot : RunSnapshot) :
    Except NativeV2SupervisorError Reduction := do
  let executions ← durableHistory snapshot
  let nextNodeInstance ← nextNodeInstance executions
  let nextExecution ← nextExecution executions
  (Zeroshot.reduce .nativeV2 root
    ⟨initialInput, executions, nextNodeInstance, nextExecution⟩).mapError .reducer

/-! ## Resuming -/

section

variable {Program : Type} (wire : Wire) (next : Nat → Except RunLedgerError Nat)

/-- `initialize_allocated`. -/
def initializeAllocated (run : FakeRun Program) (executionSeed : List DurableExecution) :
    Except RunLedgerError (FakeRun Program) :=
  if executionSeed.isEmpty then .ok run
  else do
    let (_, run) ← FakeRunLedger.appendLocked wire next run (executionSeed.map .priorExecution)
    .ok run

/-- The events lead a supervised run from one snapshot to the other, each under the next number of
its ledger. -/
structure SupervisedRun (n : Nat) (s : RunSnapshot) (events : List Ledger.RunEvent)
    (t : RunSnapshot) : Prop where
  replayed : replay (supervisedStep wire) n s events = some t
  numbered : ∀ k, n ≤ k → k < n + events.length → next k = .ok (k + 1)

/-- A later snapshot of a run that resumes the run at rest. -/
inductive Resumes (Program : Type) (s : RunSnapshot) : RunSnapshot → Prop
  | resumed {history : List DurableExecution} {request : CreateRun Program}
      {run : FakeRun Program} {events : List Ledger.RunEvent} {t : RunSnapshot}
      (idle : s.activeExecutions = []) (durable : durableHistory s = .ok history)
      (initialized : initializeAllocated wire next ⟨newRun request, []⟩ history = .ok run)
      (further : SupervisedRun wire next run.events.length run.stored.snapshot events t) :
      Resumes Program s t

end

/-! ## Histories of supervised runs -/

/-- The state of an entry of a history against the state of the execution it is. -/
inductive EntryState (offset : Nat) : NodeState → DurableExecutionState → Prop
  | active : EntryState offset .active .active
  | completed {at_ : Cursor} {position : HistoryPosition} {outcome : WorkerOutcome}
      (moved : ∀ b, at_ = cursorFor b → position.val = b + offset) :
      EntryState offset (.completed at_ outcome) (.settled position outcome)
  | voided {at_ : Cursor} {position : HistoryPosition} {reason : ExecutionVoidReason}
      (moved : ∀ b, at_ = cursorFor b → position.val = b + offset) :
      EntryState offset (.voided at_ reason) (.voided position reason)

/-- An entry of a history against the execution of the run it is. -/
structure Entry (offset : Nat) (node : NodeSnapshot) (e : DurableExecution) : Prop where
  execution : e.execution = node.reference.execution
  nodeInstance : e.nodeInstance = node.reference.nodeInstance
  occurrence : e.occurrence = node.occurrence
  attempt : e.attempt = node.attempt
  input : e.input = node.input
  dispatched : ∀ a, node.startedAt = cursorFor a → e.dispatchPosition.val = a + offset
  state : EntryState offset node.state e.state

theorem historyPosition_cursorFor {n : Nat} {p : HistoryPosition}
    (h : historyPosition (cursorFor n) = .ok p) : p.val = n := by
  unfold historyPosition at h
  cases hcursor : cursorSequence (cursorFor n) with
  | error error =>
    rw [hcursor] at h
    cases h
  | ok sequence =>
    rw [hcursor] at h
    unfold positionOf at h
    dsimp only at h
    by_cases hsmall : sequence < 2 ^ 63
    · rw [dif_pos hsmall] at h
      cases h
      exact eq_of_cursorSequence_cursorFor hcursor
    · rw [dif_neg hsmall] at h
      cases h

theorem offset_cursorFor {cursor : Cursor} {offset : Nat} {p q : HistoryPosition}
    (hp : historyPosition cursor = .ok p) (hq : offsetPosition p offset = .ok q) {n : Nat}
    (hcursor : cursor = cursorFor n) : q.val = n + offset := by
  subst hcursor
  have hmoved : q.val = p.val + offset := offsetPosition_eq_ok hq
  rw [hmoved, historyPosition_cursorFor hp]

theorem entryState_of_durable {offset : Nat} {final : NodeState}
    {plain state : DurableExecutionState} (hplain : durableState final = .ok plain)
    (hstate : offsetState offset plain = .ok state) : EntryState offset final state := by
  cases final with
  | active =>
    cases hplain
    cases hstate
    exact .active
  | completed at_ outcome =>
    obtain ⟨position, hposition, hplain⟩ := except_bind_eq_ok.mp hplain
    cases hplain
    obtain ⟨position', hposition', hstate⟩ := except_bind_eq_ok.mp hstate
    cases hstate
    exact .completed fun b hb => offset_cursorFor hposition hposition' hb
  | voided at_ reason =>
    obtain ⟨position, hposition, hplain⟩ := except_bind_eq_ok.mp hplain
    cases hplain
    obtain ⟨position', hposition', hstate⟩ := except_bind_eq_ok.mp hstate
    cases hstate
    exact .voided fun b hb => offset_cursorFor hposition hposition' hb

/-- **An entry of the history** says of an execution what the snapshot says. -/
theorem entry_of_durable {offset : Nat} {node : NodeSnapshot} {e : DurableExecution}
    (h : (durableExecution node >>= offsetExecution offset) = .ok e) : Entry offset node e := by
  obtain ⟨plain, hplain, hoffset⟩ := except_bind_eq_ok.mp h
  obtain ⟨state, hstate, hplain⟩ := except_bind_eq_ok.mp hplain
  obtain ⟨dispatch, hdispatch, hplain⟩ := except_bind_eq_ok.mp hplain
  cases hplain
  obtain ⟨dispatch', hdispatch', hoffset⟩ := except_bind_eq_ok.mp hoffset
  obtain ⟨state', hstate', hoffset⟩ := except_bind_eq_ok.mp hoffset
  cases hoffset
  exact ⟨rfl, rfl, rfl, rfl, rfl, fun a ha => offset_cursorFor hdispatch hdispatch' ha,
    entryState_of_durable hstate hstate'⟩

theorem Entry.past {wire : Wire} {n offset : Nat} {id : ExecutionId} {node : NodeSnapshot}
    {e : DurableExecution} (h : Entry offset node e) (hrecorded : Recorded wire n id node) :
    ∀ p ∈ e.positions, offset < p.val := by
  obtain ⟨a, hpos, -, hstarted, hsettled⟩ := hrecorded.timely
  intro p hp
  rcases List.mem_cons.mp hp with rfl | hp
  · rw [h.dispatched a hstarted]
    omega
  · have hstate := h.state
    unfold DurableExecution.finalPosition? at hp
    revert hsettled hstate hp
    generalize node.state = final
    generalize e.state = state
    intro hsettled hp hstate
    cases hstate with
    | active => cases hp
    | completed moved =>
      cases List.mem_singleton.mp hp
      obtain ⟨b, -, hcursor, hab⟩ := hsettled _ rfl
      rw [moved b hcursor]
      omega
    | voided moved =>
      cases List.mem_singleton.mp hp
      obtain ⟨b, -, hcursor, hab⟩ := hsettled _ rfl
      rw [moved b hcursor]
      omega

theorem Entry.bounded {texts : Texts} {executionToken : ExecutionRef → String} {n offset : Nat}
    {id : ExecutionId} {node : NodeSnapshot} {e : DurableExecution} (h : Entry offset node e)
    (hrecorded : Recorded (texts.wire executionToken) n id node)
    (hidle : node.isActive = false) :
    validateEvent (texts.wire executionToken) (.priorExecution e) = true := by
  have hstarted := hrecorded.started
  rw [← h.occurrence, ← h.attempt, ← h.input] at hstarted
  obtain ⟨started, hstarted, hlength⟩ := validateEvent_wire.mp hstarted
  have hstate := h.state
  cases hfinal : e.state with
  | active =>
    rw [hfinal] at hstate
    cases hnode : node.state with
    | active =>
      rw [NodeSnapshot.isActive, hnode] at hidle
      cases hidle
    | completed | voided =>
      rw [hnode] at hstate
      cases hstate
  | settled position outcome =>
    rw [hfinal] at hstate
    cases hnode : node.state with
    | active | voided =>
      rw [hnode] at hstate
      cases hstate
    | completed at_ outcome' =>
      rw [hnode] at hstate
      cases hstate
      obtain ⟨completed, hcompleted, hlength'⟩ :=
        validateEvent_wire.mp (hrecorded.completed at_ outcome hnode)
      obtain ⟨text, htext, hle⟩ :=
        settled_length texts hfinal h.nodeInstance h.execution hstarted hcompleted
      refine validateEvent_wire.mpr ⟨text, htext, hle.trans ?_⟩
      change started.length ≤ maxEventBytes at hlength
      change completed.length ≤ maxEventBytes at hlength'
      change _ ≤ maxPriorExecutionBytes
      unfold maxPriorExecutionBytes
      omega
  | voided position reason =>
    obtain ⟨text, htext, hle⟩ := voided_length texts hfinal h.nodeInstance h.execution hstarted
    refine validateEvent_wire.mpr ⟨text, htext, hle.trans ?_⟩
    change started.length ≤ maxEventBytes at hlength
    change _ ≤ maxPriorExecutionBytes
    unfold maxPriorExecutionBytes
    omega

/-! ## The order of a history -/

theorem eq_of_before {executions : List DurableExecution} (h : executions.Pairwise Before)
    {a b : DurableExecution} (ha : a ∈ executions) (hb : b ∈ executions)
    (heq : a.execution = b.execution) : a = b := by
  by_contra hne
  have hdistinct : executions.Pairwise fun a b => a.execution.get ≠ b.execution.get :=
    h.imp fun hbefore => Nat.ne_of_lt hbefore.1
  have hsymmetric : Std.Symm fun a b : DurableExecution => a.execution.get ≠ b.execution.get :=
    ⟨fun _ _ hne => hne.symm⟩
  exact hdistinct.forall ha hb hne (congrArg PositiveIdentity.get heq)

theorem insertionSort_parts {front back : List DurableExecution}
    (h : (front ++ back).Pairwise Before) :
    (back ++ front).insertionSort Progress.loserBefore = front ++ back := by
  have hperm : ((back ++ front).insertionSort Progress.loserBefore).Perm (front ++ back) :=
    (List.perm_insertionSort _ _).trans List.perm_append_comm
  have hsorted : (front ++ back).Pairwise Progress.loserBefore :=
    h.imp fun hbefore => .inl hbefore.2
  refine hperm.eq_of_pairwise (fun a b ha hb hab hba => ?_) (List.pairwise_insertionSort _ _)
    hsorted
  refine eq_of_before h (hperm.mem_iff.mp ha) hb ?_
  apply PositiveIdentity.eq_of_get
  rcases hab with hlt | ⟨heq, hle⟩
  · rcases hba with hlt' | ⟨heq', -⟩
    · exact absurd hlt hlt'.asymm
    · exact absurd heq' (ne_of_gt hlt)
  · rcases hba with hlt' | ⟨-, hle'⟩
    · exact absurd heq (ne_of_gt hlt')
    · exact le_antisymm hle hle'

theorem pairwise_of_forall₂ {α β : Type} {E : α → β → Prop} {R : α → α → Prop}
    {S : β → β → Prop} {as : List α} {bs : List β} (h : List.Forall₂ E as bs)
    (hR : as.Pairwise R) (hS : ∀ a a' b b', R a a' → E a b → E a' b' → S b b') :
    bs.Pairwise S := by
  induction h with
  | nil => exact .nil
  | cons hhead htail ih =>
    obtain ⟨hlater, hrest⟩ := List.pairwise_cons.mp hR
    refine .cons (fun b hb => ?_) (ih hrest)
    obtain ⟨a, ha, hab⟩ := Logged.forall₂_mem_right htail hb
    exact hS _ _ _ _ (hlater a ha) hhead hab

section

variable {wire : Wire} {n : Nat} {s : RunSnapshot} {history : List DurableExecution}

theorem keys_of_entries {offset : Nat} {executions : OrdMap ExecutionId NodeSnapshot}
    {moved : List DurableExecution}
    (h : List.Forall₂ (fun e' e => Entry offset e'.2 e) executions moved)
    (hidentity : ∀ e ∈ executions, e.2.reference.execution = e.1) :
    moved.map DurableExecution.execution = OrdMap.keys executions := by
  induction h with
  | nil => rfl
  | @cons e' e executions moved hentry _ ih =>
    have hrest := ih fun e he => hidentity e (List.mem_cons_of_mem _ he)
    rw [List.map_cons, hentry.execution, hidentity e' List.mem_cons_self, hrest]
    rfl

/-- **The history of a supervised run** is its seed and then its executions, each before the next by
identity and by position. -/
theorem Continuing.history_eq (h : Continuing wire n s)
    (hhistory : durableHistory s = .ok history) :
    ∃ moved, List.Forall₂ (fun e' e => Entry (seedOffset s.executionSeed) e'.2 e) s.executions
        moved ∧
      history = s.executionSeed ++ moved ∧ history.Pairwise Before := by
  obtain ⟨moved, hmoved, hsorted⟩ := except_bind_eq_ok.mp hhistory
  rw [collectOk_eq_ok, OrdMap.values, List.forall₂_map_left_iff] at hmoved
  have hentries : List.Forall₂ (fun e' e => Entry (seedOffset s.executionSeed) e'.2 e)
      s.executions moved := hmoved.imp fun _ _ => entry_of_durable
  have hordered : moved.Pairwise Before := by
    refine pairwise_of_forall₂ hentries h.dispatched fun a a' b b' hbefore hb hb' => ?_
    obtain ⟨hidentity, i, j, hi, hj, hlt⟩ := hbefore
    refine ⟨?_, ?_⟩
    · rw [hb.execution, hb'.execution]
      exact hidentity
    · rw [Fin.lt_def, hb.dispatched i hi, hb'.dispatched j hj]
      omega
  have hparts : (s.executionSeed ++ moved).Pairwise Before := by
    refine List.pairwise_append.mpr ⟨h.seedOrdered, hordered, fun prior hprior e he => ?_⟩
    obtain ⟨e', he', hentry⟩ := Logged.forall₂_mem_right hentries he
    have hrecorded := h.recorded e' he'
    refine ⟨?_, ?_⟩
    · rw [hentry.execution, hrecorded.identity]
      exact h.seedFirst prior hprior e' he'
    · have hseed : prior.dispatchPosition.val ≤ seedOffset s.executionSeed :=
        le_seedOffset hprior List.mem_cons_self
      have hpast := hentry.past hrecorded e.dispatchPosition List.mem_cons_self
      exact Fin.lt_def.mpr (by omega)
  cases hsorted
  rw [insertionSort_parts hparts]
  exact ⟨moved, hentries, rfl, hparts⟩

/-! ## Importing a history -/

theorem applyEvent_priorExecution {e : DurableExecution} (hphase : s.phase = .admitted)
    (hopen : s.terminal = none) (hidle : e.isActive = false)
    (hvalid : validateEvent wire (.priorExecution e) = true)
    (hlater : ∀ previous, s.executionSeed.getLast? = some previous → Before previous e) :
    Ledger.applyEvent wire (.priorExecution e) n s = .ok ()
      { s with executionSeed := s.executionSeed ++ [e], cursor := cursorFor n } := by
  have hcondition : (s.phase = .admitted && !e.isActive &&
      !s.executionSeed.getLast?.any fun previous =>
        e.execution.get ≤ previous.execution.get ||
          e.dispatchPosition ≤ previous.dispatchPosition) = true := by
    cases hlast : s.executionSeed.getLast? with
    | none => simp [hphase, hidle]
    | some previous =>
      obtain ⟨hidentity, hposition⟩ := hlater previous hlast
      simp only [hphase, hidle, Option.any_some, Bool.not_or, decide_true, Bool.not_false,
        Bool.and_self, Bool.true_and, Bool.and_eq_true, Bool.not_eq_true', decide_eq_false_iff_not,
        not_le]
      exact ⟨hidentity, hposition⟩
  unfold Ledger.applyEvent
  have hterminal : s.terminal.isNone = true := Option.isNone_iff_eq_none.mpr hopen
  refine runs_require_bind.mpr ⟨hterminal, ?_⟩
  refine runs_bind.mpr ⟨(), s, ?_, ?_⟩
  · unfold requireBounded
    rw [if_pos hvalid]
    rfl
  · refine runs_bind.mpr ⟨(), { s with executionSeed := s.executionSeed ++ [e] }, ?_, ?_⟩
    · exact runs_require_bind.mpr ⟨hcondition, rfl⟩
    · rfl

/-- **A history at rest is imported** after an earlier part of it, event by event and in a batch. -/
theorem appendLoop_import {next : Nat → Except RunLedgerError Nat} (rest : List DurableExecution)
    (hphase : s.phase = .admitted) (hopen : s.terminal = none)
    (hordered : (s.executionSeed ++ rest).Pairwise Before)
    (hidle : ∀ e ∈ rest, e.isActive = false)
    (hvalid : ∀ e ∈ rest, validateEvent wire (.priorExecution e) = true)
    (hnext : ∀ k, n ≤ k → k < n + rest.length → next k = .ok (k + 1)) :
    ∃ t stored, appendLoop wire next s n (rest.map .priorExecution) =
        .ok (t, n + rest.length, stored) ∧
      stored.length = rest.length ∧ t.executionSeed = s.executionSeed ++ rest ∧
      t.executions = s.executions ∧
      replay (supervisedStep wire) n s (rest.map .priorExecution) = some t := by
  induction rest generalizing s n with
  | nil => exact ⟨s, [], rfl, rfl, (List.append_nil _).symm, rfl, rfl⟩
  | cons e rest ih =>
    have hlater : ∀ previous, s.executionSeed.getLast? = some previous → Before previous e :=
      fun previous hlast => (List.pairwise_append.mp hordered).2.2 previous
        (List.mem_of_getLast? hlast) e List.mem_cons_self
    have happly := @applyEvent_priorExecution wire (n + 1) s e hphase hopen
      (hidle e List.mem_cons_self) (hvalid e List.mem_cons_self) hlater
    obtain ⟨t, stored, hloop, hlength, hseed, hexecutions, hreplay⟩ :=
      @ih (n + 1) { s with executionSeed := s.executionSeed ++ [e], cursor := cursorFor (n + 1) }
        hphase hopen (by rwa [List.append_assoc]) (fun e he => hidle e (List.mem_cons_of_mem _ he))
        (fun e he => hvalid e (List.mem_cons_of_mem _ he))
        (fun k hk hlt => hnext k (by omega) (by rw [List.length_cons]; omega))
    have hnumber : n + (e :: rest).length = n + 1 + rest.length := by
      rw [List.length_cons]
      omega
    refine ⟨t, ⟨cursorFor (n + 1), .priorExecution e⟩ :: stored, ?_, ?_, ?_, hexecutions, ?_⟩
    · have hnumbered : next n = .ok (n + 1) :=
        hnext n (le_refl n) (by rw [List.length_cons]; omega)
      have hprepared : prepareEvent s (.priorExecution e) = .priorExecution e := rfl
      rw [List.map_cons, appendLoop, hnumber]
      refine except_bind_eq_ok.mpr ⟨n + 1, hnumbered, ?_⟩
      dsimp only
      rw [hprepared, happly]
      exact except_bind_eq_ok.mpr ⟨_, hloop, rfl⟩
    · rw [List.length_cons, List.length_cons, hlength]
    · rw [hseed, List.append_assoc]
      rfl
    · rw [List.map_cons, replay_cons (supervisedStep_eq_some.mpr ⟨rfl, step_eq_some.mpr happly⟩)]
      exact hreplay

theorem durableHistory_seed (hnone : s.executions = [])
    (hordered : s.executionSeed.Pairwise Before) :
    durableHistory s = .ok s.executionSeed := by
  have hsorted : s.executionSeed.Pairwise Progress.loserBefore :=
    hordered.imp fun hbefore => .inl hbefore.2
  unfold durableHistory
  rw [hnone]
  change Except.ok (List.insertionSort _ ([] ++ s.executionSeed)) = _
  rw [List.nil_append, hsorted.insertionSort_eq]

theorem Continuing.idle (h : Continuing wire n s) {moved : List DurableExecution} {offset : Nat}
    (hentries : List.Forall₂ (fun e' e => Entry offset e'.2 e) s.executions moved)
    (hidle : s.activeExecutions = []) :
    ∀ e ∈ s.executionSeed ++ moved, e.isActive = false := by
  intro e he
  rcases List.mem_append.mp he with he | he
  · exact h.seedSettled e he
  · obtain ⟨e', he', hentry⟩ := Logged.forall₂_mem_right hentries he
    have hnode := activeExecutions_eq_nil.mp hidle e' he'
    have hstate := hentry.state
    unfold NodeSnapshot.isActive at hnode
    unfold DurableExecution.isActive
    revert hnode hstate
    generalize e'.2.state = final
    generalize e.state = state
    intro hnode hstate
    cases hstate with
    | active => cases hnode
    | completed | voided => rfl

end

section

variable {Program : Type} {texts : Texts} {executionToken : ExecutionRef → String}
  {next : Nat → Except RunLedgerError Nat} {n : Nat} {s : RunSnapshot}
  {history : List DurableExecution}

/-- **A new run accepts the history of a run at rest**, and is left with it and nothing else. -/
theorem initializeAllocated_accepted (h : Continuing (texts.wire executionToken) n s)
    (hnext : ∀ k < n, next k = .ok (k + 1)) (hidle : s.activeExecutions = [])
    (hhistory : durableHistory s = .ok history) (request : CreateRun Program) :
    ∃ run, initializeAllocated (texts.wire executionToken) next ⟨newRun request, []⟩ history =
        .ok run ∧
      run.events.length ≤ n ∧
      Continuing (texts.wire executionToken) run.events.length run.stored.snapshot ∧
      run.stored.snapshot.executionSeed = history ∧ run.stored.snapshot.executions = [] := by
  obtain ⟨moved, hentries, rfl, hordered⟩ := h.history_eq hhistory
  have hshort : (s.executionSeed ++ moved).length ≤ n := by
    rw [List.length_append, ← hentries.length_eq]
    exact h.counted
  have hbounded : ∀ e ∈ s.executionSeed ++ moved,
      validateEvent (texts.wire executionToken) (.priorExecution e) = true := by
    intro e he
    rcases List.mem_append.mp he with he | he
    · exact h.seedBounded e he
    · obtain ⟨e', he', hentry⟩ := Logged.forall₂_mem_right hentries he
      exact hentry.bounded (h.recorded e' he') (activeExecutions_eq_nil.mp hidle e' he')
  have hatRest := h.idle hentries hidle
  revert hshort hbounded hatRest hordered
  clear hhistory
  generalize s.executionSeed ++ moved = seed
  intro hordered hshort hbounded hatRest
  unfold initializeAllocated
  cases seed with
  | nil =>
    exact ⟨_, rfl, Nat.zero_le n, Continuing.initial _ request.runId request.admitted, rfl, rfl⟩
  | cons first rest =>
    obtain ⟨t, stored, hloop, hlength, hseed, hexecutions, hreplay⟩ :=
      @appendLoop_import (texts.wire executionToken) 0 (newRun request).snapshot next
        (first :: rest) rfl rfl hordered hatRest hbounded
        (fun k _ hk => hnext k (by omega))
    have hcursor : cursorSequence initialCursor = .ok 0 := by
      rw [initialCursor_eq]
      exact cursorSequence_cursorFor (Nat.two_pow_pos 64)
    refine ⟨⟨{ newRun request with snapshot := t }, [] ++ stored⟩, ?_, ?_, ?_, hseed, hexecutions⟩
    · rw [if_neg (by simp)]
      refine except_bind_eq_ok.mpr ⟨(⟨t, stored⟩, _), ?_, rfl⟩
      unfold FakeRunLedger.appendLocked
      rw [if_neg (by simp)]
      refine except_bind_eq_ok.mpr ⟨0, hcursor, ?_⟩
      exact except_bind_eq_ok.mpr ⟨_, hloop, rfl⟩
    · rw [List.nil_append, hlength]
      exact hshort
    · rw [List.nil_append, hlength]
      have hcontinuing := replay_continuing
        (Continuing.initial _ request.runId request.admitted) hreplay
      rwa [Nat.zero_add, List.length_map] at hcontinuing

/-- A snapshot of a supervised run whose ledger has numbered all its events. -/
def Numbered (wire : Wire) (next : Nat → Except RunLedgerError Nat) (t : RunSnapshot) : Prop :=
  ∃ n, Continuing wire n t ∧ ∀ k < n, next k = .ok (k + 1)

theorem SupervisedRun.numbered_of {wire : Wire} {events : List Ledger.RunEvent} {t : RunSnapshot}
    (h : SupervisedRun wire next n s events t) (hs : Continuing wire n s)
    (hnext : ∀ k < n, next k = .ok (k + 1)) : Numbered wire next t := by
  refine ⟨n + events.length, replay_continuing hs h.replayed, fun k hk => ?_⟩
  by_cases hsmall : k < n
  · exact hnext k hsmall
  · exact h.numbered k (by omega) hk

theorem Resumes.numbered {t : RunSnapshot}
    (h : Resumes (texts.wire executionToken) next Program s t)
    (hs : Numbered (texts.wire executionToken) next s) :
    Numbered (texts.wire executionToken) next t := by
  obtain ⟨n, hcontinuing, hnext⟩ := hs
  cases h with
  | @resumed history request run events t idle durable initialized further =>
    obtain ⟨run', hrun', hle, hseeded, -⟩ :=
      initializeAllocated_accepted hcontinuing hnext idle durable request
    rw [initialized] at hrun'
    cases hrun'
    exact further.numbered_of hseeded fun k hk => hnext k (by omega)

/-- **Continuation is faithful.** Take a run that gave its executions identities in increasing
order, perhaps itself seeded, and any later snapshot of a chain of runs that each resume the one
before. Its history has no identity twice, and every position of its seed comes before every
position of its own executions. When it is at rest, a new run accepts its history in one batch, and
then has the same history and reduces to the same result for every admission. -/
theorem continuation_faithful {runId : RunId} {admitted : AdmittedRun Program}
    {events : List Ledger.RunEvent} {t : RunSnapshot}
    (hrun : SupervisedRun (texts.wire executionToken) next 0 (.ofAdmitted runId admitted) events s)
    (hchain : Relation.ReflTransGen (Resumes (texts.wire executionToken) next Program) s t) :
    (∀ history, durableHistory t = .ok history →
      (history.map DurableExecution.execution).Nodup ∧
      ∃ moved, history = t.executionSeed ++ moved ∧
        moved.map DurableExecution.execution = OrdMap.keys t.executions ∧
        ∀ p ∈ historyPositions t.executionSeed, ∀ q ∈ historyPositions moved, p < q) ∧
    ∀ history (request : CreateRun Program), t.activeExecutions = [] →
      durableHistory t = .ok history →
        ∃ run, initializeAllocated (texts.wire executionToken) next ⟨newRun request, []⟩ history =
            .ok run ∧
          durableHistory run.stored.snapshot = .ok history ∧
          ∀ root initialInput,
            reduce root initialInput run.stored.snapshot = reduce root initialInput t := by
  have hs : Numbered (texts.wire executionToken) next s :=
    hrun.numbered_of (Continuing.initial _ runId admitted) fun k hk => absurd hk (Nat.not_lt_zero k)
  have ht : Numbered (texts.wire executionToken) next t := by
    clear hrun
    induction hchain with
    | refl => exact hs
    | tail _ hlast ih => exact hlast.numbered ih
  obtain ⟨n, hcontinuing, hnext⟩ := ht
  constructor
  · intro history hhistory
    obtain ⟨moved, hentries, hparts, hordered⟩ := hcontinuing.history_eq hhistory
    refine ⟨?_, moved, hparts, ?_, ?_⟩
    · rw [List.Nodup, List.pairwise_map]
      refine hordered.imp fun hbefore heq => ?_
      exact absurd hbefore.1 (heq ▸ lt_irrefl _)
    · exact keys_of_entries hentries fun e he => (hcontinuing.recorded e he).identity
    · intro p hp q hq
      obtain ⟨prior, hprior, hp⟩ := mem_historyPositions.mp hp
      obtain ⟨e, he, hq⟩ := mem_historyPositions.mp hq
      obtain ⟨e', he', hentry⟩ := Logged.forall₂_mem_right hentries he
      have hbelow := le_seedOffset hprior hp
      have hpast := hentry.past (hcontinuing.recorded e' he') q hq
      exact Fin.lt_def.mpr (by omega)
  · intro history request hidle hhistory
    obtain ⟨run, hrun', -, hseeded, hseed, hnone⟩ :=
      initializeAllocated_accepted hcontinuing hnext hidle hhistory request
    have hsame : durableHistory run.stored.snapshot = .ok history := by
      rw [durableHistory_seed hnone hseeded.seedOrdered, hseed]
    refine ⟨run, hrun', hsame, fun root initialInput => ?_⟩
    rw [reduce, reduce, hsame, hhistory]

end

namespace Sample

/-- What is written for a run of a step without artifacts. -/
def texts : Texts where
  value value := (writeCanonicalJson value).toOption.getD []
  outcome
    | .verified output [] => (writeCanonicalJson output).toOption.map fun output =>
        structText [("status", writeString "verified"), ("output", output),
          ("artifacts", arrayText [])]
    | _ => none
  other
    | .runStarted => some (structText [("kind", writeString "run_started")])
    | _ => none

def wire : Wire := texts.wire fun reference => reference.node.asStr

open Zeroshot.Sample

def reference (runId : RunId) (n : Nat) (node : NodeName) : ExecutionRef :=
  ⟨runId, node, nodeInstance n, execution n⟩

/-- A step runs as the execution `n` and completes. -/
def stepEvents (runId : RunId) (n : Nat) (node : NodeName) : List Ledger.RunEvent :=
  [.nodeStarted (reference runId n node) ⟨node, []⟩ PositiveInteger.one .null,
    .nodeCompleted ⟨reference runId n node, done⟩]

/-- Two steps run, one after the other. -/
def firstEvents : List Ledger.RunEvent :=
  .runStarted :: stepEvents Ledger.Sample.runId 0 a ++ stepEvents Ledger.Sample.runId 1 b

def secondRequest : CreateRun Unit :=
  ⟨⟨"run-2"⟩, ⟨"submission-2"⟩, "digest-2", ⟨"sample", none, .small, ()⟩⟩

/-- After the resume a third step runs. -/
def laterEvents : List Ledger.RunEvent := .runStarted :: stepEvents ⟨"run-2"⟩ 2 d

/-- The history a run at rest leaves, and its successor after some events. -/
def successor (s : RunSnapshot) (events : List Ledger.RunEvent) :
    Option (List DurableExecution × FakeRun Unit × RunSnapshot) := do
  let history ← (durableHistory s).toOption
  let run ← (initializeAllocated wire FakeRunLedger.nextSequence ⟨newRun secondRequest, []⟩
    history).toOption
  let t ← replay (supervisedStep wire) run.events.length run.stored.snapshot events
  some (history, run, t)

theorem numbered {n m : Nat} (hsmall : n + m < 100) :
    ∀ k, n ≤ k → k < n + m → FakeRunLedger.nextSequence k = .ok (k + 1) := by
  intro k _ hk
  have hbig : (100 : Nat) < 2 ^ 64 := by decide
  rw [FakeRunLedger.nextSequence, if_pos (by omega)]

theorem successor_resumes {s t : RunSnapshot} {events : List Ledger.RunEvent}
    {history : List DurableExecution} {run : FakeRun Unit} (hidle : s.activeExecutions = [])
    (h : successor s events = some (history, run, t))
    (hsmall : run.events.length + events.length < 100) :
    Resumes wire FakeRunLedger.nextSequence Unit s t := by
  obtain ⟨found, hfound, h⟩ := Option.bind_eq_some_iff.mp h
  obtain ⟨begun, hbegun, h⟩ := Option.bind_eq_some_iff.mp h
  obtain ⟨later, hreplay, h⟩ := Option.bind_eq_some_iff.mp h
  cases h
  exact .resumed hidle (eq_ok_of_toOption hfound) (eq_ok_of_toOption hbegun)
    ⟨hreplay, numbered hsmall⟩

end Sample

/-- A run with two steps is resumed, a third step runs, and the run is resumed again: the last run
has the history of all three. -/
theorem stepRun_continues :
    ∃ s t history run, SupervisedRun Sample.wire FakeRunLedger.nextSequence 0
        (.ofAdmitted Ledger.Sample.runId Ledger.Sample.request.admitted) Sample.firstEvents s ∧
      Resumes Sample.wire FakeRunLedger.nextSequence Unit s t ∧ t.executionSeed.length = 2 ∧
      durableHistory t = .ok history ∧ history.length = 3 ∧
      initializeAllocated Sample.wire FakeRunLedger.nextSequence
        ⟨newRun Ledger.Sample.request, []⟩ history = .ok run ∧
      Relation.ReflTransGen (Resumes Sample.wire FakeRunLedger.nextSequence Unit) s
        run.stored.snapshot ∧
      durableHistory run.stored.snapshot = .ok history ∧
      (history.map DurableExecution.execution).Nodup := by
  have hreplay : ((replay (supervisedStep Sample.wire) 0
      (.ofAdmitted Ledger.Sample.runId Ledger.Sample.request.admitted) Sample.firstEvents).bind
        fun s => (Sample.successor s Sample.laterEvents).map fun next =>
          (s.activeExecutions, next.2.1.events.length, next.2.2.activeExecutions,
            next.2.2.executionSeed.length,
            (durableHistory next.2.2).toOption.map List.length)) =
      some ([], 2, [], 2, some 3) := by decide +kernel
  obtain ⟨s, hs, hnext⟩ := Option.bind_eq_some_iff.mp hreplay
  obtain ⟨⟨first, begun, t⟩, ht, hproperties⟩ := Option.map_eq_some_iff.mp hnext
  obtain ⟨hidle, hbegun, hrest, hseed, hlength⟩ := by simpa using hproperties
  obtain ⟨history, hhistory, hthree⟩ := hlength
  have hdurable : durableHistory t = .ok history := eq_ok_of_toOption hhistory
  have hrun : SupervisedRun Sample.wire FakeRunLedger.nextSequence 0
      (.ofAdmitted Ledger.Sample.runId Ledger.Sample.request.admitted) Sample.firstEvents s :=
    ⟨hs, Sample.numbered (by decide)⟩
  have hresumes : Resumes Sample.wire FakeRunLedger.nextSequence Unit s t :=
    Sample.successor_resumes hidle ht (by rw [hbegun]; decide)
  obtain ⟨-, hresume⟩ := continuation_faithful hrun (.single hresumes)
  obtain ⟨run, hinitialized, hsame, -⟩ := hresume history Ledger.Sample.request hrest hdurable
  have hagain : Resumes Sample.wire FakeRunLedger.nextSequence Unit t run.stored.snapshot :=
    .resumed hrest hdurable hinitialized
      ⟨replay_nil _ _, fun k hk hlt => absurd hlt (by simpa using hk)⟩
  have hchain := (Relation.ReflTransGen.single hresumes).tail hagain
  obtain ⟨hunique, -⟩ := continuation_faithful hrun hchain
  exact ⟨s, t, history, run, hrun, hresumes, hseed, hdurable, hthree, hinitialized, hchain, hsame,
    (hunique history hsame).1⟩

end Zeroshot.Supervisor
