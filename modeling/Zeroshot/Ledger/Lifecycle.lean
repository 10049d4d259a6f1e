import Zeroshot.Ledger.Sourcing

set_option autoImplicit false

/-!
# Lifecycle safety

What holds of the snapshot of a run and of the events that led to it, for any sequence of accepted
events. `Changes` says what one event can do; the invariants follow from it case by case, and
`replay_history` carries them along a run.
-/

namespace Zeroshot.Ledger

/-! ## What an event is about -/

/-- The execution the event starts. -/
def RunEvent.started : RunEvent → Option ExecutionId
  | .nodeStarted reference _ _ _ => some reference.execution
  | _ => none

/-- The execution the event takes out of `Active`. -/
def RunEvent.settled : RunEvent → Option ExecutionId
  | .nodeCompleted completion => some completion.reference.execution
  | .executionVoided reference _ => some reference.execution
  | _ => none

/-- The execution the event imports. -/
def RunEvent.prior : RunEvent → Option DurableExecution
  | .priorExecution execution => some execution
  | _ => none

/-- The event completes the primary graph. -/
def RunEvent.completesPrimary : RunEvent → Bool
  | .primaryGraphCompleted _ _ _ => true
  | _ => false

/-- When the execution left `Active`. -/
def NodeState.settledAt : NodeState → Option Cursor
  | .active => none
  | .completed at_ _ => some at_
  | .voided at_ _ => some at_

/-! ## Phases -/

/-- The phase, the flags and the seed, and the events behind them. -/
structure Phases (events : List RunEvent) (s : RunSnapshot) : Prop where
  terminal : s.terminal.isSome = true ↔ s.phase = .finished
  idle : s.terminal.isSome = true ∨ s.primaryGraph.isSome = true → s.activeExecutions = []
  undispatched : s.phase = .admitted → s.executions = []
  running : s.phase = .running → .runStarted ∈ events
  forced : .forceStopRequested ∈ events → s.forceStopRequested = true
  completed : ∀ event ∈ events, event.completesPrimary = true → s.primaryGraph.isSome = true
  seeded : s.executionSeed = events.filterMap RunEvent.prior

theorem activeExecutions_eq_nil {s : RunSnapshot} :
    s.activeExecutions = [] ↔ ∀ e ∈ s.executions, e.2.isActive = false := by
  rw [RunSnapshot.activeExecutions, OrdMap.values, List.filter_eq_nil_iff, List.forall_mem_map]
  simp only [Bool.not_eq_true]

/-- An idle snapshot stays idle when a known execution is rewritten without becoming active. -/
theorem idle_insert {s s' : RunSnapshot} {id : ExecutionId} {node : NodeSnapshot}
    (hexecutions : s'.executions = OrdMap.insert id node s.executions)
    (hnode : node.isActive = false) (h : s.activeExecutions = []) : s'.activeExecutions = [] := by
  rw [activeExecutions_eq_nil] at h ⊢
  intro e he
  rw [hexecutions] at he
  rcases OrdMap.mem_insert_imp he with rfl | he
  · exact hnode
  · exact h e he

theorem not_idle {s : RunSnapshot} {id : ExecutionId} {node : NodeSnapshot}
    (hnode : OrdMap.get? s.executions id = some node) (hactive : node.state = .active) :
    s.activeExecutions ≠ [] := by
  intro h
  have hidle := activeExecutions_eq_nil.mp h _ (OrdMap.mem_of_get? hnode)
  rw [NodeSnapshot.isActive, hactive] at hidle
  cases hidle

theorem Phases.initial {Program : Type} (runId : RunId) (admitted : AdmittedRun Program) :
    Phases [] (.ofAdmitted runId admitted) where
  terminal := by simp [RunSnapshot.ofAdmitted, RunSnapshot.empty]
  idle _ := rfl
  undispatched _ := rfl
  running h := by cases h
  forced h := by cases h
  completed _ h := by cases h
  seeded := rfl

/-- An event that neither starts, stops, completes nor imports anything keeps the phases, when the
executions stay idle. -/
theorem Phases.keep {events : List RunEvent} {s t : RunSnapshot} (h : Phases events s)
    (event : RunEvent) (hforce : event ≠ .forceStopRequested)
    (hprimary : event.completesPrimary = false) (hprior : event.prior = none)
    (hphase : t.phase = s.phase) (hterminal : t.terminal = s.terminal)
    (hflag : t.forceStopRequested = s.forceStopRequested)
    (hgraph : t.primaryGraph = s.primaryGraph) (hseed : t.executionSeed = s.executionSeed)
    (hnew : s.phase = .admitted → t.executions = s.executions)
    (hidle : s.terminal.isSome = true ∨ s.primaryGraph.isSome = true →
      s.activeExecutions = [] → t.activeExecutions = []) :
    Phases (events ++ [event]) t where
  terminal := by rw [hterminal, hphase, h.terminal]
  idle := by
    rw [hterminal, hgraph]
    exact fun hclosed => hidle hclosed (h.idle hclosed)
  undispatched := by
    rw [hphase]
    intro hadmitted
    rw [hnew hadmitted, h.undispatched hadmitted]
  running := by
    rw [hphase]
    exact fun hrunning => List.mem_append_left _ (h.running hrunning)
  forced := by
    rw [hflag, List.mem_append, List.mem_singleton]
    rintro (hmem | hevent)
    · exact h.forced hmem
    · exact absurd hevent.symm hforce
  completed e he hcompletes := by
    rw [hgraph]
    rcases List.mem_append.mp he with he | he
    · exact h.completed e he hcompletes
    · rw [List.mem_singleton.mp he, hprimary] at hcompletes
      cases hcompletes
  seeded := by
    rw [hseed, h.seeded, List.filterMap_append, List.filterMap_cons_none hprior,
      List.filterMap_nil, List.append_nil]

theorem Observed.idle {s t : RunSnapshot} (h : Observed s t) (hidle : s.activeExecutions = []) :
    t.activeExecutions = [] := by
  rcases h.executions with hsame | ⟨id, node, hnode, hinsert⟩
  · rwa [RunSnapshot.activeExecutions, hsame]
  · refine idle_insert hinsert ?_ hidle
    exact activeExecutions_eq_nil.mp hidle _ (OrdMap.mem_of_get? hnode)

theorem Observed.undispatched {s t : RunSnapshot} (h : Observed s t) (hnone : s.executions = []) :
    t.executions = s.executions := by
  rcases h.executions with hsame | ⟨id, node, hnode, -⟩
  · exact hsame
  · rw [hnone] at hnode
    cases hnode

/-- One accepted event keeps the phases. -/
theorem Changes.phases {n : Nat} {event : RunEvent} {s t : RunSnapshot} {events : List RunEvent}
    (h : Changes n event s t) (hopen : s.terminal = none) (hs : Phases events s) :
    Phases (events ++ [event]) t := by
  -- an earlier event that completed the primary graph is in the old list
  have hold : ∀ e ∈ events ++ [event], e.completesPrimary = true → event.completesPrimary = false →
      s.primaryGraph.isSome = true := by
    intro e he hcompletes hevent
    rcases List.mem_append.mp he with he | he
    · exact hs.completed e he hcompletes
    · rw [List.mem_singleton.mp he, hevent] at hcompletes
      cases hcompletes
  have hseeded : event.prior = none →
      s.executionSeed = (events ++ [event]).filterMap RunEvent.prior := by
    intro hprior
    rw [hs.seeded, List.filterMap_append, List.filterMap_cons_none hprior, List.filterMap_nil,
      List.append_nil]
  cases h with
  | priorExecution admitted settled later =>
    exact
      { hs with
        running := fun hrunning => List.mem_append_left _ (hs.running hrunning)
        forced := fun hmem => hs.forced (by simpa using hmem)
        completed := fun e he hcompletes => hold e he hcompletes rfl
        seeded := by
          rw [hs.seeded, List.filterMap_append]
          rfl }
  | runStarted admitted =>
    exact
      { hs with
        terminal := by simp [hopen]
        undispatched := nofun
        running := fun _ => by simp
        forced := fun hmem => hs.forced (by simpa using hmem)
        completed := fun e he hcompletes => hold e he hcompletes rfl
        seeded := hseeded rfl }
  | nodeStarted running primary run force fresh unseeded =>
    refine hs.keep _ nofun rfl rfl rfl rfl rfl rfl rfl (fun hadmitted => ?_) fun hclosed => ?_
    · rw [running] at hadmitted
      cases hadmitted
    · rw [hopen, primary] at hclosed
      rcases hclosed with hclosed | hclosed <;> cases hclosed
  | nodeCompleted run artifacts valid dispatched reference active =>
    refine hs.keep _ nofun rfl rfl rfl rfl rfl rfl rfl (fun hadmitted => ?_) fun _ hidle => ?_
    · rw [hs.undispatched hadmitted] at dispatched
      cases dispatched
    · exact absurd hidle (not_idle dispatched active)
  | executionVoided run dispatched same active =>
    refine hs.keep _ nofun rfl rfl rfl rfl rfl rfl rfl (fun hadmitted => ?_) fun _ hidle => ?_
    · rw [hs.undispatched hadmitted] at dispatched
      cases dispatched
    · exact absurd hidle (not_idle dispatched active)
  | observed observation change =>
    refine hs.keep event ?_ ?_ ?_ (by rw [change.rest]) (by rw [change.rest]) (by rw [change.rest])
      (by rw [change.rest]) (by rw [change.rest])
      (fun hadmitted => change.undispatched (hs.undispatched hadmitted)) fun _ => change.idle
    · rintro rfl
      cases observation
    · cases event <;> first | rfl | cases observation
    · cases event <;> first | rfl | cases observation
  | primaryGraphCompleted started primary idle evidence =>
    exact
      { hs with
        idle := fun _ => idle
        running := fun hrunning => List.mem_append_left _ (hs.running hrunning)
        forced := fun hmem => hs.forced (by simpa using hmem)
        completed := fun _ _ _ => rfl
        seeded := hseeded rfl }
  | forceStopRequested force =>
    exact
      { hs with
        terminal := by simp [hopen]
        undispatched := nofun
        running := nofun
        forced := fun _ => rfl
        completed := fun e he hcompletes => hold e he hcompletes rfl
        seeded := hseeded rfl }
  | terminal idle =>
    exact
      { hs with
        terminal := by simp
        idle := fun _ => idle
        undispatched := nofun
        running := nofun
        forced := fun hmem => hs.forced (by simpa using hmem)
        completed := fun e he hcompletes => by
          simpa using hold e he hcompletes rfl
        seeded := hseeded rfl }

/-! ## Executions -/

/-- The cursors of an execution: it started at an event, and settled at a later one. -/
def Timely (n : Nat) (node : NodeSnapshot) : Prop :=
  ∃ a ≤ n, node.startedAt = cursorFor a ∧
    ∀ at_, node.state.settledAt = some at_ → ∃ b ≤ n, at_ = cursorFor b ∧ a < b

theorem Timely.mono {n m : Nat} {node : NodeSnapshot} (hnm : n ≤ m) (h : Timely n node) :
    Timely m node := by
  obtain ⟨a, ha, hstarted, hsettled⟩ := h
  refine ⟨a, ha.trans hnm, hstarted, fun at_ hat => ?_⟩
  obtain ⟨b, hb, hcursor, hab⟩ := hsettled at_ hat
  exact ⟨b, hb.trans hnm, hcursor, hab⟩

/-- The executions of the run, and the events behind them. -/
structure Dispatches (events : List RunEvent) (s : RunSnapshot) : Prop where
  started : ∀ id, id ∈ events.filterMap RunEvent.started ↔
    (OrdMap.get? s.executions id).isSome = true
  startedOnce : (events.filterMap RunEvent.started).Nodup
  unseeded : ∀ id ∈ events.filterMap RunEvent.started, ∀ prior ∈ s.executionSeed,
    prior.execution ≠ id
  settled : ∀ id, id ∈ events.filterMap RunEvent.settled ↔
    ∃ node, OrdMap.get? s.executions id = some node ∧ node.isActive = false
  settledOnce : (events.filterMap RunEvent.settled).Nodup
  timely : ∀ id node, OrdMap.get? s.executions id = some node → Timely events.length node

theorem Dispatches.initial {Program : Type} (runId : RunId) (admitted : AdmittedRun Program) :
    Dispatches [] (.ofAdmitted runId admitted) where
  started _ := by simp [RunSnapshot.ofAdmitted, RunSnapshot.empty]
  startedOnce := List.nodup_nil
  unseeded _ h := by cases h
  settled _ := by simp [RunSnapshot.ofAdmitted, RunSnapshot.empty]
  settledOnce := List.nodup_nil
  timely _ _ h := by cases h

/-- An event that neither starts nor settles an execution keeps the dispatches, when the executions
it leaves are the same up to their diagnostics. -/
theorem Dispatches.keep {events : List RunEvent} {s t : RunSnapshot} (h : Dispatches events s)
    (event : RunEvent) (hstarted : event.started = none) (hsettled : event.settled = none)
    (hseed : ∀ id ∈ events.filterMap RunEvent.started, ∀ prior ∈ t.executionSeed,
      prior.execution ≠ id)
    (hsame : ∀ id, ∃ flag : NodeSnapshot → Bool, OrdMap.get? t.executions id =
      (OrdMap.get? s.executions id).map fun node => { node with failureDiagnostic := flag node }) :
    Dispatches (events ++ [event]) t := by
  have hstarts : (events ++ [event]).filterMap RunEvent.started =
      events.filterMap RunEvent.started := by
    rw [List.filterMap_append, List.filterMap_cons_none hstarted, List.filterMap_nil,
      List.append_nil]
  have hsettles : (events ++ [event]).filterMap RunEvent.settled =
      events.filterMap RunEvent.settled := by
    rw [List.filterMap_append, List.filterMap_cons_none hsettled, List.filterMap_nil,
      List.append_nil]
  refine ⟨fun id => ?_, ?_, ?_, fun id => ?_, ?_, fun id node hnode => ?_⟩
  · obtain ⟨flag, hget⟩ := hsame id
    rw [hstarts, h.started, hget, Option.isSome_map]
  · rw [hstarts]
    exact h.startedOnce
  · rw [hstarts]
    exact hseed
  · obtain ⟨flag, hget⟩ := hsame id
    rw [hsettles, h.settled, hget]
    constructor
    · rintro ⟨node, hnode, hactive⟩
      exact ⟨{ node with failureDiagnostic := flag node }, by rw [hnode]; rfl, hactive⟩
    · rintro ⟨node, hnode, hactive⟩
      obtain ⟨old, hold, rfl⟩ := Option.map_eq_some_iff.mp hnode
      exact ⟨old, hold, hactive⟩
  · rw [hsettles]
    exact h.settledOnce
  · obtain ⟨flag, hget⟩ := hsame id
    rw [hget] at hnode
    obtain ⟨old, hold, rfl⟩ := Option.map_eq_some_iff.mp hnode
    exact (h.timely id old hold).mono (by simp)

/-- A dispatched execution leaves `Active`. -/
theorem Dispatches.settle {events : List RunEvent} {s t : RunSnapshot} (h : Dispatches events s)
    (event : RunEvent) {id : ExecutionId} {node : NodeSnapshot} {state : NodeState}
    (hstarted : event.started = none) (hsettled : event.settled = some id)
    (hnode : OrdMap.get? s.executions id = some node) (hactive : node.state = .active)
    (hstate : state.settledAt = some (cursorFor (events.length + 1)))
    (hseed : t.executionSeed = s.executionSeed)
    (hexecutions : t.executions = OrdMap.insert id { node with state } s.executions) :
    Dispatches (events ++ [event]) t := by
  have hstarts : (events ++ [event]).filterMap RunEvent.started =
      events.filterMap RunEvent.started := by
    rw [List.filterMap_append, List.filterMap_cons_none hstarted, List.filterMap_nil,
      List.append_nil]
  have hsettles : (events ++ [event]).filterMap RunEvent.settled =
      events.filterMap RunEvent.settled ++ [id] := by
    rw [List.filterMap_append, List.filterMap_cons_some hsettled, List.filterMap_nil]
  have hfresh : id ∉ events.filterMap RunEvent.settled := by
    rw [h.settled]
    rintro ⟨other, hother, hinactive⟩
    rw [hnode] at hother
    cases hother
    rw [NodeSnapshot.isActive, hactive] at hinactive
    cases hinactive
  have hsettledState : NodeSnapshot.isActive { node with state } = false := by
    cases state with
    | active => cases hstate
    | completed | voided => rfl
  have hother : ∀ other, other ≠ id →
      OrdMap.get? t.executions other = OrdMap.get? s.executions other := by
    intro other hne
    rw [hexecutions, OrdMap.get?_insert_ne hne]
  have hself : OrdMap.get? t.executions id = some { node with state } := by
    rw [hexecutions, OrdMap.get?_insert_self]
  refine ⟨fun other => ?_, ?_, ?_, fun other => ?_, ?_, fun other node' hnode' => ?_⟩
  · rw [hstarts, h.started]
    by_cases hid : other = id
    · rw [hid, hself, hnode]
      rfl
    · rw [hother other hid]
  · rw [hstarts]
    exact h.startedOnce
  · rw [hstarts, hseed]
    exact h.unseeded
  · rw [hsettles, List.mem_append, List.mem_singleton]
    by_cases hid : other = id
    · subst hid
      exact ⟨fun _ => ⟨_, hself, hsettledState⟩, fun _ => .inr rfl⟩
    · rw [hother other hid, h.settled]
      exact or_iff_left hid
  · rw [hsettles]
    exact h.settledOnce.append (List.nodup_singleton id) (by simpa using hfresh)
  · rw [List.length_append, List.length_singleton]
    by_cases hid : other = id
    · subst hid
      rw [hself] at hnode'
      cases hnode'
      obtain ⟨a, ha, hstart, -⟩ := h.timely other node hnode
      refine ⟨a, ha.trans (Nat.le_succ _), hstart, fun at_ hat => ?_⟩
      rw [hstate] at hat
      cases hat
      exact ⟨_, le_refl _, rfl, Nat.lt_succ_of_le ha⟩
    · rw [hother other hid] at hnode'
      exact (h.timely other node' hnode').mono (Nat.le_succ _)

/-- A new execution is dispatched. -/
theorem Dispatches.start {events : List RunEvent} {s t : RunSnapshot} (h : Dispatches events s)
    (event : RunEvent) {id : ExecutionId} {node : NodeSnapshot}
    (hstarted : event.started = some id) (hsettled : event.settled = none)
    (hfresh : OrdMap.get? s.executions id = none)
    (hunseeded : ∀ prior ∈ s.executionSeed, prior.execution ≠ id)
    (hstate : node.state = .active) (hcursor : node.startedAt = cursorFor (events.length + 1))
    (hseed : t.executionSeed = s.executionSeed)
    (hexecutions : t.executions = OrdMap.insert id node s.executions) :
    Dispatches (events ++ [event]) t := by
  have hstarts : (events ++ [event]).filterMap RunEvent.started =
      events.filterMap RunEvent.started ++ [id] := by
    rw [List.filterMap_append, List.filterMap_cons_some hstarted, List.filterMap_nil]
  have hsettles : (events ++ [event]).filterMap RunEvent.settled =
      events.filterMap RunEvent.settled := by
    rw [List.filterMap_append, List.filterMap_cons_none hsettled, List.filterMap_nil,
      List.append_nil]
  have hnew : id ∉ events.filterMap RunEvent.started := by
    rw [h.started, hfresh]
    simp
  have hother : ∀ other, other ≠ id →
      OrdMap.get? t.executions other = OrdMap.get? s.executions other := by
    intro other hne
    rw [hexecutions, OrdMap.get?_insert_ne hne]
  have hself : OrdMap.get? t.executions id = some node := by
    rw [hexecutions, OrdMap.get?_insert_self]
  refine ⟨fun other => ?_, ?_, fun other hmem => ?_, fun other => ?_, ?_,
    fun other node' hnode' => ?_⟩
  · rw [hstarts, List.mem_append, List.mem_singleton]
    by_cases hid : other = id
    · subst hid
      rw [hself]
      exact ⟨fun _ => rfl, fun _ => .inr rfl⟩
    · rw [hother other hid, h.started]
      exact or_iff_left hid
  · rw [hstarts]
    exact h.startedOnce.append (List.nodup_singleton id) (by simpa using hnew)
  · rw [hseed]
    rw [hstarts, List.mem_append, List.mem_singleton] at hmem
    rcases hmem with hmem | rfl
    · exact h.unseeded other hmem
    · exact hunseeded
  · rw [hsettles, h.settled]
    by_cases hid : other = id
    · subst hid
      rw [hself, hfresh]
      simp [NodeSnapshot.isActive, hstate]
    · rw [hother other hid]
  · rw [hsettles]
    exact h.settledOnce
  · rw [List.length_append, List.length_singleton]
    by_cases hid : other = id
    · subst hid
      rw [hself] at hnode'
      cases hnode'
      refine ⟨_, le_refl _, hcursor, fun at_ hat => ?_⟩
      rw [hstate] at hat
      cases hat
    · rw [hother other hid] at hnode'
      exact (h.timely other node' hnode').mono (Nat.le_succ _)

/-- One accepted event keeps the dispatches. -/
theorem Changes.dispatches {event : RunEvent} {s t : RunSnapshot} {events : List RunEvent}
    (h : Changes (events.length + 1) event s t) (hphases : Phases events s)
    (hs : Dispatches events s) : Dispatches (events ++ [event]) t := by
  have hsame : ∀ id, ∃ flag : NodeSnapshot → Bool, OrdMap.get? s.executions id =
      (OrdMap.get? s.executions id).map fun node => { node with failureDiagnostic := flag node } :=
    fun id => ⟨NodeSnapshot.failureDiagnostic, Option.map_id'.symm ▸ rfl⟩
  cases h with
  | priorExecution admitted settled later =>
    refine hs.keep _ rfl rfl (fun id hid => ?_) hsame
    -- nothing is dispatched before the run starts
    rw [hs.started, hphases.undispatched admitted] at hid
    cases hid
  | runStarted admitted => exact hs.keep _ rfl rfl hs.unseeded hsame
  | primaryGraphCompleted started primary idle evidence =>
    exact hs.keep _ rfl rfl hs.unseeded hsame
  | forceStopRequested force => exact hs.keep _ rfl rfl hs.unseeded hsame
  | terminal idle => exact hs.keep _ rfl rfl hs.unseeded hsame
  | observed observation change =>
    refine hs.keep event ?_ ?_ ?_ fun id => ?_
    · cases event <;> first | rfl | cases observation
    · cases event <;> first | rfl | cases observation
    · rw [change.rest]
      exact hs.unseeded
    · rcases change.executions with hnone | ⟨marked, node, hnode, hinsert⟩
      · rw [hnone]
        exact hsame id
      · by_cases hid : id = marked
        · subst hid
          rw [hinsert, OrdMap.get?_insert_self, hnode]
          exact ⟨fun _ => true, rfl⟩
        · rw [hinsert, OrdMap.get?_insert_ne hid]
          exact hsame id
  | nodeCompleted run artifacts valid dispatched reference active =>
    exact hs.settle _ rfl rfl dispatched active rfl rfl rfl
  | executionVoided run dispatched same active =>
    exact hs.settle _ rfl rfl dispatched active rfl rfl rfl
  | nodeStarted running primary run force fresh unseeded =>
    exact hs.start _ rfl rfl fresh unseeded rfl rfl rfl rfl

/-! ## Runs -/

theorem Phases.withCursor {events : List RunEvent} {s : RunSnapshot} (h : Phases events s)
    (cursor : Cursor) : Phases events { s with cursor } :=
  { h with }

theorem Dispatches.withCursor {events : List RunEvent} {s : RunSnapshot} (h : Dispatches events s)
    (cursor : Cursor) : Dispatches events { s with cursor } :=
  { h with }

section

variable {Program : Type} {wire : Wire} {runId : RunId} {admitted : AdmittedRun Program}
  {events : List RunEvent} {s : RunSnapshot}

/-- Every run keeps both invariants. -/
theorem replay_lifecycle
    (h : replay (step wire) 0 (.ofAdmitted runId admitted) events = some s) :
    Phases events s ∧ Dispatches events s := by
  refine replay_history (P := fun events s => Phases events s ∧ Dispatches events s) h
    ⟨Phases.initial runId admitted, Dispatches.initial runId admitted⟩
    fun front e u u' hu hstep => ?_
  obtain ⟨hopen, -, t, hchanges, rfl⟩ := applyEvent_eq_ok (step_eq_some.mp hstep)
  rw [Nat.zero_add] at hchanges
  exact ⟨(hchanges.phases hopen hu.1).withCursor _,
    (hchanges.dispatches hu.1 hu.2).withCursor _⟩

theorem step_terminal {event : RunEvent} {n : Nat} (h : s.terminal.isSome = true) :
    step wire event n s = none := by
  cases hstep : step wire event n s with
  | none => rfl
  | some t =>
    obtain ⟨hopen, -⟩ := applyEvent_eq_ok (step_eq_some.mp hstep)
    rw [hopen] at h
    cases h

/-- The same primary result and delivery evidence. -/
def SamePrimary (primary primary' : PrimaryGraphCompletion) : Prop :=
  primary'.result = primary.result ∧ primary'.deliveryExecution = primary.deliveryExecution

theorem Changes.primary {n : Nat} {event : RunEvent} {s t : RunSnapshot}
    {primary : PrimaryGraphCompletion} (h : Changes n event s t)
    (hs : s.primaryGraph = some primary) :
    ∃ primary', t.primaryGraph = some primary' ∧ SamePrimary primary primary' := by
  cases h with
  | primaryGraphCompleted started none idle evidence =>
    rw [hs] at none
    cases none
  | terminal idle =>
    refine ⟨{ primary with auxiliaryPending := false }, ?_, rfl, rfl⟩
    change s.primaryGraph.map _ = _
    rw [hs]
    rfl
  | observed observation change =>
    refine ⟨primary, ?_, rfl, rfl⟩
    rw [change.rest]
    exact hs
  | _ => exact ⟨primary, hs, rfl, rfl⟩

theorem replay_primary {n : Nat} {more : List RunEvent} {t : RunSnapshot}
    {primary : PrimaryGraphCompletion} (hs : s.primaryGraph = some primary)
    (h : replay (step wire) n s more = some t) :
    ∃ primary', t.primaryGraph = some primary' ∧ SamePrimary primary primary' := by
  refine replay_history (P := fun _ t => ∃ primary', t.primaryGraph = some primary' ∧
    SamePrimary primary primary') h ⟨primary, hs, rfl, rfl⟩ fun front e u u' hu hstep => ?_
  obtain ⟨-, -, t, hchanges, rfl⟩ := applyEvent_eq_ok (step_eq_some.mp hstep)
  obtain ⟨middle, hmiddle, hsame⟩ := hu
  obtain ⟨last, hlast, hsame'⟩ := hchanges.primary hmiddle
  exact ⟨last, hlast, hsame'.1.trans hsame.1, hsame'.2.trans hsame.2⟩

/-- **Lifecycle safety.** In every snapshot a sequence of accepted events leads to. -/
theorem lifecycle_safe
    (h : replay (step wire) 0 (.ofAdmitted runId admitted) events = some s) :
    (s.terminal.isSome = true ↔ s.phase = .finished) ∧
    (s.terminal.isSome = true → ∀ event n, step wire event n s = none) ∧
    (s.terminal.isSome = true ∨ s.primaryGraph.isSome = true → s.activeExecutions = []) ∧
    (∀ reference occurrence attempt input n,
      (step wire (.nodeStarted reference occurrence attempt input) n s).isSome = true →
        .runStarted ∈ events ∧ .forceStopRequested ∉ events ∧
          ∀ event ∈ events, event.completesPrimary = false) ∧
    (events.filterMap RunEvent.started).Nodup ∧
    (∀ id ∈ events.filterMap RunEvent.started, ∀ prior ∈ s.executionSeed,
      prior.execution ≠ id) ∧
    (events.filterMap RunEvent.settled).Nodup ∧
    (∀ id, id ∈ events.filterMap RunEvent.settled ↔
      ∃ node, OrdMap.get? s.executions id = some node ∧ node.isActive = false) ∧
    (∀ id node, OrdMap.get? s.executions id = some node → Timely events.length node) ∧
    ∀ primary more t, s.primaryGraph = some primary →
      replay (step wire) events.length s more = some t →
        ∃ primary', t.primaryGraph = some primary' ∧ SamePrimary primary primary' := by
  obtain ⟨hphases, hdispatches⟩ := replay_lifecycle h
  refine ⟨hphases.terminal, fun hterminal event n => step_terminal hterminal, hphases.idle, ?_,
    hdispatches.startedOnce, hdispatches.unseeded, hdispatches.settledOnce, hdispatches.settled,
    hdispatches.timely, fun primary more t hprimary hmore => replay_primary hprimary hmore⟩
  intro reference occurrence attempt input n haccepted
  obtain ⟨s', hs'⟩ := Option.isSome_iff_exists.mp haccepted
  obtain ⟨-, -, t, hchanges, -⟩ := applyEvent_eq_ok (step_eq_some.mp hs')
  cases hchanges with
  | observed observation change => cases observation
  | nodeStarted running primary run force fresh unseeded =>
    refine ⟨hphases.running running, fun hforced => ?_, fun event hevent => ?_⟩
    · rw [hphases.forced hforced] at force
      cases force
    · rw [Bool.eq_false_iff]
      intro hcompletes
      have hset := hphases.completed event hevent hcompletes
      rw [primary] at hset
      cases hset

end

namespace Sample

/-- One node runs and completes, and the run ends. -/
def finishedEvents : List RunEvent :=
  [.runStarted,
    .nodeStarted reference ⟨build, []⟩ PositiveInteger.one .null,
    .nodeCompleted ⟨reference, .verified .null []⟩,
    .primaryGraphCompleted (.succeeded .null) false none, .terminal (.succeeded .null)]

end Sample

/-- The events of a run with one node are accepted, and leave it safe. -/
theorem finishedRun_safe :
    ∃ s, replay (step Sample.codec.wire) 0
        (.ofAdmitted Sample.runId Sample.request.admitted) Sample.finishedEvents = some s ∧
      s.phase = .finished ∧ s.activeExecutions = [] ∧
      ∀ event n, step Sample.codec.wire event n s = none := by
  have hreplay : (replay (step Sample.codec.wire) 0
      (.ofAdmitted Sample.runId Sample.request.admitted) Sample.finishedEvents).map
        (fun s => s.terminal.isSome) = some true := by decide
  obtain ⟨s, hs, hterminal⟩ := Option.map_eq_some_iff.mp hreplay
  obtain ⟨hphase, hclosed, hidle, -⟩ := lifecycle_safe hs
  exact ⟨s, hs, hphase.mp hterminal, hidle (.inl hterminal), hclosed hterminal⟩

end Zeroshot.Ledger
