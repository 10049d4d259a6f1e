import Zeroshot.Ledger.Texts
import Zeroshot.Supervisor.History

set_option autoImplicit false

/-!
# Supervised runs

A supervised run gives its executions identities in the order it dispatches them, past every
identity of its seed. Its executions are then stored in the order of their dispatch, after the seed
(`Continuing`), which every accepted event keeps.
-/

namespace Zeroshot.Supervisor

open Ledger

/-! ## Steps -/

/-- A dispatch takes an identity past those of the run and of its seed. -/
def takesNextIdentity (event : Ledger.RunEvent) (s : RunSnapshot) : Bool :=
  match event.started with
  | some id => s.executions.all (fun e => e.1.get < id.get) &&
      s.executionSeed.all fun prior => prior.execution.get < id.get
  | none => true

/-- The snapshot after an event of a supervised run, when it is accepted. -/
def supervisedStep (wire : Wire) (event : Ledger.RunEvent) (sequence : Nat)
    (snapshot : RunSnapshot) : Option RunSnapshot :=
  if takesNextIdentity event snapshot then step wire event sequence snapshot else none

theorem supervisedStep_eq_some {wire : Wire} {event : Ledger.RunEvent} {n : Nat}
    {s s' : RunSnapshot} :
    supervisedStep wire event n s = some s' ↔
      takesNextIdentity event s = true ∧ step wire event n s = some s' := by
  unfold supervisedStep
  by_cases h : takesNextIdentity event s = true
  · rw [if_pos h]
    exact ⟨fun hstep => ⟨h, hstep⟩, fun hstep => hstep.2⟩
  · rw [if_neg h]
    exact ⟨fun hstep => (by cases hstep), fun hstep => absurd hstep.1 h⟩

/-! ## The order of dispatches -/

/-- One execution before another, by identity and by the event that dispatched it. -/
def DispatchedBefore (a b : NodeSnapshot) : Prop :=
  a.reference.execution.get < b.reference.execution.get ∧
    ∃ i j, a.startedAt = cursorFor i ∧ b.startedAt = cursorFor j ∧ i < j

/-- One execution before another in a seed. -/
def Before (a b : DurableExecution) : Prop :=
  a.execution.get < b.execution.get ∧ a.dispatchPosition < b.dispatchPosition

/-- What the events of an execution say about it. -/
structure Recorded (wire : Wire) (n : Nat) (id : ExecutionId) (node : NodeSnapshot) : Prop where
  identity : node.reference.execution = id
  timely : ∃ a, 0 < a ∧ a ≤ n ∧ node.startedAt = cursorFor a ∧
    ∀ at_, node.state.settledAt = some at_ → ∃ b ≤ n, at_ = cursorFor b ∧ a < b
  started : validateEvent wire
    (.nodeStarted node.reference node.occurrence node.attempt node.input) = true
  completed : ∀ at_ outcome, node.state = .completed at_ outcome →
    validateEvent wire (.nodeCompleted ⟨node.reference, outcome⟩) = true

/-- The seed and the executions of a run after `n` events. -/
structure Stored (wire : Wire) (n : Nat) (s : RunSnapshot) : Prop where
  undispatched : s.phase = .admitted → s.executions = []
  recorded : ∀ e ∈ s.executions, Recorded wire n e.1 e.2
  sorted : s.executions.Pairwise fun a b => a.1.get < b.1.get
  seedSettled : ∀ prior ∈ s.executionSeed, prior.isActive = false
  seedOrdered : s.executionSeed.Pairwise Before
  unseeded : ∀ prior ∈ s.executionSeed, ∀ e ∈ s.executions, prior.execution ≠ e.1
  seedBounded : ∀ prior ∈ s.executionSeed, validateEvent wire (.priorExecution prior) = true
  counted : s.executionSeed.length + s.executions.length ≤ n

/-- In a supervised run, executions are stored in the order of their dispatch, after the seed. -/
structure Continuing (wire : Wire) (n : Nat) (s : RunSnapshot) : Prop extends
    Stored wire n s where
  dispatched : s.executions.Pairwise fun a b => DispatchedBefore a.2 b.2
  seedFirst : ∀ prior ∈ s.executionSeed, ∀ e ∈ s.executions, prior.execution.get < e.1.get

section

variable {wire : Wire} {n : Nat} {s t : RunSnapshot}

theorem Recorded.mono {m : Nat} {id : ExecutionId} {node : NodeSnapshot} (hnm : n ≤ m)
    (h : Recorded wire n id node) : Recorded wire m id node := by
  obtain ⟨a, hpos, ha, hstarted, hsettled⟩ := h.timely
  refine { h with timely := ⟨a, hpos, ha.trans hnm, hstarted, fun at_ hat => ?_⟩ }
  obtain ⟨b, hb, hcursor, hab⟩ := hsettled at_ hat
  exact ⟨b, hb.trans hnm, hcursor, hab⟩

/-! ## Every run -/

theorem insert_sorted {executions : OrdMap ExecutionId NodeSnapshot} {id : ExecutionId}
    {node : NodeSnapshot} (h : executions.Pairwise fun a b => a.1.get < b.1.get) :
    (OrdMap.insert id node executions).Pairwise fun a b => a.1.get < b.1.get := by
  induction executions with
  | nil => exact List.pairwise_singleton _ _
  | cons e executions ih =>
    obtain ⟨hlater, hrest⟩ := List.pairwise_cons.mp h
    rw [OrdMap.insert]
    rcases lt_trichotomy id.get e.1.get with hlt | heq | hgt
    · have hcompare : compare id e.1 = .lt := Nat.compare_eq_lt.mpr hlt
      rw [hcompare]
      refine .cons (fun e' he' => ?_) h
      rcases List.mem_cons.mp he' with rfl | he'
      · exact hlt
      · exact hlt.trans (hlater e' he')
    · have hcompare : compare id e.1 = .eq := Nat.compare_eq_eq.mpr heq
      rw [hcompare]
      refine .cons (fun e' he' => ?_) hrest
      have hlater' := hlater e' he'
      dsimp only
      omega
    · have hcompare : compare id e.1 = .gt := Nat.compare_eq_gt.mpr hgt
      rw [hcompare]
      refine .cons (fun e' he' => ?_) (ih hrest)
      rcases OrdMap.mem_insert_imp he' with rfl | he'
      · exact hgt
      · exact hlater e' he'

theorem length_insert_le {id : ExecutionId} {node : NodeSnapshot}
    (executions : OrdMap ExecutionId NodeSnapshot) :
    (OrdMap.insert id node executions).length ≤ executions.length + 1 := by
  induction executions with
  | nil => exact le_refl 1
  | cons e executions ih =>
    rw [OrdMap.insert]
    cases compare id e.1 with
    | lt => exact le_refl _
    | eq => exact Nat.le_succ _
    | gt => exact Nat.succ_le_succ ih

theorem Stored.initial {Program : Type} (wire : Wire) (runId : RunId)
    (admitted : AdmittedRun Program) : Stored wire 0 (.ofAdmitted runId admitted) where
  undispatched _ := rfl
  recorded _ h := by cases h
  sorted := .nil
  seedSettled _ h := by cases h
  seedOrdered := .nil
  unseeded _ h := by cases h
  seedBounded _ h := by cases h
  counted := le_refl 0

theorem Stored.keep (h : Stored wire n s) (hphase : t.phase = .admitted → s.phase = .admitted)
    (hexecutions : t.executions = s.executions) (hseed : t.executionSeed = s.executionSeed) :
    Stored wire (n + 1) t where
  undispatched hadmitted := by rw [hexecutions, h.undispatched (hphase hadmitted)]
  recorded e he := (h.recorded e (hexecutions ▸ he)).mono (Nat.le_succ n)
  sorted := hexecutions ▸ h.sorted
  seedSettled := hseed ▸ h.seedSettled
  seedOrdered := hseed ▸ h.seedOrdered
  unseeded := by rw [hseed, hexecutions]; exact h.unseeded
  seedBounded := hseed ▸ h.seedBounded
  counted := by rw [hseed, hexecutions]; exact h.counted.trans (Nat.le_succ n)

theorem Stored.insert (h : Stored wire n s) {id : ExecutionId} {node : NodeSnapshot}
    (hrecorded : Recorded wire (n + 1) id node)
    (hunseeded : ∀ prior ∈ s.executionSeed, prior.execution ≠ id)
    (hphase : t.phase = .admitted → s.executions ≠ [] ∧ s.phase = .admitted)
    (hexecutions : t.executions = OrdMap.insert id node s.executions)
    (hseed : t.executionSeed = s.executionSeed) : Stored wire (n + 1) t where
  undispatched hadmitted := by
    obtain ⟨hsome, hphase⟩ := hphase hadmitted
    exact absurd (h.undispatched hphase) hsome
  recorded e he := by
    rw [hexecutions] at he
    rcases OrdMap.mem_insert_imp he with rfl | he
    · exact hrecorded
    · exact (h.recorded e he).mono (Nat.le_succ n)
  sorted := hexecutions ▸ insert_sorted h.sorted
  seedSettled := hseed ▸ h.seedSettled
  seedOrdered := hseed ▸ h.seedOrdered
  unseeded prior hprior e he := by
    rw [hseed] at hprior
    rw [hexecutions] at he
    rcases OrdMap.mem_insert_imp he with rfl | he
    · exact hunseeded prior hprior
    · exact h.unseeded prior hprior e he
  seedBounded := hseed ▸ h.seedBounded
  counted := by
    have hcounted := h.counted
    have hlength := @length_insert_le id node s.executions
    rw [hseed, hexecutions]
    omega

theorem seed_append {seed : List DurableExecution} {e : DurableExecution}
    (h : seed.Pairwise Before)
    (hlater : ∀ previous, seed.getLast? = some previous → Before previous e) :
    (seed ++ [e]).Pairwise Before := by
  refine List.pairwise_append.mpr ⟨h, List.pairwise_singleton _ _, fun a ha b hb => ?_⟩
  cases List.mem_singleton.mp hb
  -- the new one is after the last one, and that after all others
  obtain ⟨last, hlast⟩ : ∃ last, seed.getLast? = some last :=
    ⟨_, List.getLast?_eq_some_getLast (List.ne_nil_of_mem ha)⟩
  obtain ⟨hidentity, hposition⟩ := hlater last hlast
  obtain ⟨front, hfront⟩ := List.getLast?_eq_some_iff.mp hlast
  rw [hfront] at ha h
  rcases List.mem_append.mp ha with ha | ha
  · have hle := (List.pairwise_append.mp h).2.2 a ha last List.mem_cons_self
    exact ⟨hle.1.trans hidentity, hle.2.trans hposition⟩
  · cases List.mem_singleton.mp ha
    exact ⟨hidentity, hposition⟩

theorem Recorded.ended {id : ExecutionId} {node : NodeSnapshot} (h : Recorded wire n id node)
    {state : NodeState} (hstate : state.settledAt = some (cursorFor (n + 1)))
    (hcompleted : ∀ at_ outcome, state = .completed at_ outcome →
      validateEvent wire (.nodeCompleted ⟨node.reference, outcome⟩) = true) :
    Recorded wire (n + 1) id { node with state } := by
  obtain ⟨a, hpos, ha, hstarted, -⟩ := h.timely
  refine ⟨h.identity, ⟨a, hpos, by omega, hstarted, fun at_ hat => ?_⟩, h.started, hcompleted⟩
  rw [hstate] at hat
  cases hat
  exact ⟨n + 1, le_refl _, rfl, by omega⟩

/-- An accepted event leaves the executions and the seed, stores an execution in their place or
imports one. -/
inductive Effect (wire : Wire) (n : Nat) (event : Ledger.RunEvent) (s t : RunSnapshot) : Prop
  | unchanged (phase : t.phase = .admitted → s.phase = .admitted)
      (executions : t.executions = s.executions) (seed : t.executionSeed = s.executionSeed)
  | started (id : ExecutionId) (node : NodeSnapshot) (event : event.started = some id)
      (recorded : Recorded wire (n + 1) id node) (cursor : node.startedAt = cursorFor (n + 1))
      (phase : t.phase ≠ .admitted) (unseeded : ∀ prior ∈ s.executionSeed, prior.execution ≠ id)
      (executions : t.executions = OrdMap.insert id node s.executions)
      (seed : t.executionSeed = s.executionSeed)
  | rewritten (id : ExecutionId) (node node' : NodeSnapshot)
      (known : OrdMap.get? s.executions id = some node)
      (recorded : Recorded wire (n + 1) id node') (reference : node'.reference = node.reference)
      (cursor : node'.startedAt = node.startedAt)
      (phase : t.phase = .admitted → s.phase = .admitted)
      (executions : t.executions = OrdMap.insert id node' s.executions)
      (seed : t.executionSeed = s.executionSeed)
  | imported (e : DurableExecution) (phase : s.phase = .admitted) (settled : e.isActive = false)
      (valid : validateEvent wire (.priorExecution e) = true)
      (later : ∀ previous, s.executionSeed.getLast? = some previous → Before previous e)
      (executions : t.executions = s.executions) (seed : t.executionSeed = s.executionSeed ++ [e])

theorem Stored.effect (h : Stored wire n s) {event : Ledger.RunEvent}
    (hchanges : Changes (n + 1) event s t) (hvalid : validateEvent wire event = true) :
    Effect wire n event s t := by
  cases hchanges with
  | priorExecution admitted settled later =>
    exact .imported _ admitted settled hvalid later rfl rfl
  | runStarted admitted => exact .unchanged (fun _ => admitted) rfl rfl
  | @nodeStarted s reference occurrence attempt input running primary run force fresh unseeded =>
    refine .started reference.execution
      ⟨reference, occurrence, attempt, input, cursorFor (n + 1), .active, false⟩ rfl ?_ rfl ?_
      unseeded rfl rfl
    · refine ⟨rfl, ⟨n + 1, by omega, le_refl _, rfl, fun at_ hat => ?_⟩, hvalid,
        fun at_ outcome hstate => ?_⟩
      · cases hat
      · cases hstate
    · rw [running]
      exact nofun
  | @nodeCompleted s completion node run artifacts valid dispatched reference active =>
    have hrecorded : Recorded wire n completion.reference.execution node :=
      h.recorded _ (OrdMap.mem_of_get? dispatched)
    have hended : Recorded wire (n + 1) completion.reference.execution
        { node with state := .completed (cursorFor (n + 1)) completion.outcome } := by
      refine hrecorded.ended rfl fun at_ outcome hstate => ?_
      cases hstate
      rw [reference]
      exact hvalid
    exact .rewritten _ node _ dispatched hended rfl rfl id rfl rfl
  | @executionVoided s reference reason node run dispatched same active =>
    have hrecorded : Recorded wire n reference.execution node :=
      h.recorded _ (OrdMap.mem_of_get? dispatched)
    have hended : Recorded wire (n + 1) reference.execution
        { node with state := .voided (cursorFor (n + 1)) reason } := by
      refine hrecorded.ended rfl fun at_ outcome hstate => ?_
      cases hstate
    exact .rewritten _ node _ dispatched hended rfl rfl id rfl rfl
  | observed observation change =>
    have hphase : t.phase = s.phase := by rw [change.rest]
    have hseed : t.executionSeed = s.executionSeed := by rw [change.rest]
    rcases change.executions with hsame | ⟨id, node, hnode, hinsert⟩
    · exact .unchanged (fun hadmitted => hphase ▸ hadmitted) hsame hseed
    · have hrecorded := (h.recorded _ (OrdMap.mem_of_get? hnode)).mono (Nat.le_succ n)
      exact .rewritten id node { node with failureDiagnostic := true } hnode
        ⟨hrecorded.identity, hrecorded.timely, hrecorded.started, hrecorded.completed⟩ rfl rfl
        (fun hadmitted => hphase ▸ hadmitted) hinsert hseed
  | primaryGraphCompleted started primary idle evidence => exact .unchanged id rfl rfl
  | forceStopRequested force => exact .unchanged nofun rfl rfl
  | terminal idle => exact .unchanged nofun rfl rfl

/-- **Every run** keeps its executions and its seed apart, each in order. -/
theorem Stored.changes (h : Stored wire n s) {event : Ledger.RunEvent}
    (hchanges : Changes (n + 1) event s t) (hvalid : validateEvent wire event = true) :
    Stored wire (n + 1) t := by
  cases h.effect hchanges hvalid with
  | unchanged phase executions seed => exact h.keep phase executions seed
  | started id node event recorded cursor phase unseeded executions seed =>
    exact h.insert recorded unseeded (fun hadmitted => absurd hadmitted phase) executions seed
  | rewritten id node node' known recorded reference cursor phase executions seed =>
    have hmem := OrdMap.mem_of_get? known
    refine h.insert recorded (fun prior hprior => h.unseeded prior hprior _ hmem) ?_ executions seed
    exact fun hadmitted => ⟨List.ne_nil_of_mem hmem, phase hadmitted⟩
  | imported e phase settled valid later executions seed =>
    have hnone := executions.trans (h.undispatched phase)
    refine ⟨fun _ => hnone, ?_, hnone ▸ .nil, ?_, seed ▸ seed_append h.seedOrdered later, ?_, ?_,
      ?_⟩
    · intro e' he'
      rw [hnone] at he'
      cases he'
    · rw [seed]
      intro prior hprior
      rcases List.mem_append.mp hprior with hprior | hprior
      · exact h.seedSettled prior hprior
      · cases List.mem_singleton.mp hprior
        exact settled
    · intro prior _ e' he'
      rw [hnone] at he'
      cases he'
    · rw [seed]
      intro prior hprior
      rcases List.mem_append.mp hprior with hprior | hprior
      · exact h.seedBounded prior hprior
      · cases List.mem_singleton.mp hprior
        exact valid
    · have hcounted := h.counted
      rw [seed, executions, List.length_append, List.length_singleton]
      omega

theorem replay_stored {Program : Type} {runId : RunId} {admitted : AdmittedRun Program}
    {events : List Ledger.RunEvent}
    (hrun : replay (step wire) 0 (.ofAdmitted runId admitted) events = some t) :
    Stored wire events.length t := by
  have hstored : Stored wire (0 + events.length) t :=
    replay_invariant (P := Stored wire) (fun event k u u' hstep hu => by
      obtain ⟨-, hvalid, u'', hchanges, rfl⟩ := applyEvent_eq_ok (step_eq_some.mp hstep)
      exact { hu.changes hchanges hvalid with }) hrun (Stored.initial wire runId admitted)
  rwa [Nat.zero_add] at hstored

/-! ## Supervised runs -/

theorem Continuing.initial {Program : Type} (wire : Wire) (runId : RunId)
    (admitted : AdmittedRun Program) : Continuing wire 0 (.ofAdmitted runId admitted) where
  toStored := Stored.initial wire runId admitted
  dispatched := .nil
  seedFirst _ h := by cases h

theorem Stored.compare_front (h : Stored wire n s)
    {front rest : OrdMap ExecutionId NodeSnapshot} {id : ExecutionId} {node : NodeSnapshot}
    (hsplit : s.executions = front ++ (id, node) :: rest) :
    ∀ e ∈ front, compare id e.1 = .gt := by
  intro e he
  have hsorted := h.sorted
  rw [hsplit, List.pairwise_append] at hsorted
  exact Nat.compare_eq_gt.mpr (hsorted.2.2 e he _ List.mem_cons_self)

theorem Continuing.rewrite (h : Continuing wire n s) (ht : Stored wire (n + 1) t)
    {id : ExecutionId} {node node' : NodeSnapshot}
    (hnode : OrdMap.get? s.executions id = some node)
    (hreference : node'.reference = node.reference) (hstarted : node'.startedAt = node.startedAt)
    (hexecutions : t.executions = OrdMap.insert id node' s.executions)
    (hseed : t.executionSeed = s.executionSeed) : Continuing wire (n + 1) t := by
  obtain ⟨front, rest, hsplit⟩ := List.append_of_mem (OrdMap.mem_of_get? hnode)
  have hinsert : t.executions = front ++ (id, node') :: rest := by
    rw [hexecutions, hsplit, OrdMap.insert_middle (h.compare_front hsplit)]
  have hbefore : ∀ other, DispatchedBefore node' other ↔ DispatchedBefore node other := by
    intro other
    rw [DispatchedBefore, DispatchedBefore, hreference, hstarted]
  have hbefore' : ∀ other, DispatchedBefore other node' ↔ DispatchedBefore other node := by
    intro other
    rw [DispatchedBefore, DispatchedBefore, hreference, hstarted]
  refine ⟨ht, ?_, fun prior hprior e he => ?_⟩
  · have hordered := h.dispatched
    rw [hsplit, List.pairwise_append, List.pairwise_cons] at hordered
    rw [hinsert, List.pairwise_append, List.pairwise_cons]
    obtain ⟨hfront, ⟨hlater, hrest⟩, hcross⟩ := hordered
    refine ⟨hfront, ⟨fun e he => (hbefore e.2).mpr (hlater e he), hrest⟩, fun a ha b hb => ?_⟩
    rcases List.mem_cons.mp hb with rfl | hb
    · exact (hbefore' a.2).mpr (hcross a ha _ List.mem_cons_self)
    · exact hcross a ha b (List.mem_cons_of_mem _ hb)
  · rw [hseed] at hprior
    rw [hexecutions] at he
    rcases OrdMap.mem_insert_imp he with rfl | he
    · exact h.seedFirst prior hprior (id, node) (OrdMap.mem_of_get? hnode)
    · exact h.seedFirst prior hprior e he

/-- An execution is dispatched after all others. -/
theorem Continuing.start (h : Continuing wire n s) (ht : Stored wire (n + 1) t)
    {id : ExecutionId} {node : NodeSnapshot} (hrecorded : Recorded wire (n + 1) id node)
    (hstarted : node.startedAt = cursorFor (n + 1))
    (hlast : ∀ e ∈ s.executions, e.1.get < id.get)
    (hseedLast : ∀ prior ∈ s.executionSeed, prior.execution.get < id.get)
    (hexecutions : t.executions = OrdMap.insert id node s.executions)
    (hseed : t.executionSeed = s.executionSeed) : Continuing wire (n + 1) t := by
  have hinsert : t.executions = s.executions ++ [(id, node)] := by
    rw [hexecutions]
    exact OrdMap.insert_of_gt fun e he => Nat.compare_eq_gt.mpr (hlast e he)
  refine ⟨ht, ?_, fun prior hprior e he => ?_⟩
  · rw [hinsert, List.pairwise_append]
    refine ⟨h.dispatched, List.pairwise_singleton _ _, fun a ha b hb => ?_⟩
    cases List.mem_singleton.mp hb
    obtain ⟨i, -, hi, hcursor, -⟩ := (h.recorded a ha).timely
    refine ⟨?_, i, n + 1, hcursor, hstarted, by omega⟩
    rw [hrecorded.identity, (h.recorded a ha).identity]
    exact hlast a ha
  · rw [hseed] at hprior
    rw [hinsert, List.mem_append, List.mem_singleton] at he
    rcases he with he | rfl
    · exact h.seedFirst prior hprior e he
    · exact hseedLast prior hprior

theorem Continuing.changes (h : Continuing wire n s) {event : Ledger.RunEvent}
    (hchanges : Changes (n + 1) event s t) (hvalid : validateEvent wire event = true)
    (hnext : takesNextIdentity event s = true) : Continuing wire (n + 1) t := by
  have ht := h.toStored.changes hchanges hvalid
  cases h.effect hchanges hvalid with
  | unchanged phase executions seed =>
    exact ⟨ht, executions ▸ h.dispatched, by rw [seed, executions]; exact h.seedFirst⟩
  | started id node event recorded cursor phase unseeded executions seed =>
    rw [takesNextIdentity, event] at hnext
    simp only [Bool.and_eq_true, List.all_eq_true, decide_eq_true_eq] at hnext
    exact h.start ht recorded cursor hnext.1 hnext.2 executions seed
  | rewritten id node node' known recorded reference cursor phase executions seed =>
    exact h.rewrite ht known reference cursor executions seed
  | imported e phase settled valid later executions seed =>
    have hnone := executions.trans (h.undispatched phase)
    refine ⟨ht, hnone ▸ .nil, fun prior _ e' he' => ?_⟩
    rw [hnone] at he'
    cases he'

/-- **Every supervised run** keeps its executions in the order of their dispatch, after its
seed. -/
theorem replay_continuing {m : Nat} {events : List Ledger.RunEvent} (h : Continuing wire m s)
    (hrun : replay (supervisedStep wire) m s events = some t) :
    Continuing wire (m + events.length) t := by
  refine replay_invariant (P := Continuing wire) (fun event k u u' hstep hu => ?_) hrun h
  obtain ⟨hnext, hstep⟩ := supervisedStep_eq_some.mp hstep
  obtain ⟨-, hvalid, u'', hchanges, rfl⟩ := applyEvent_eq_ok (step_eq_some.mp hstep)
  exact { hu.changes hchanges hvalid hnext with }

end

end Zeroshot.Supervisor
