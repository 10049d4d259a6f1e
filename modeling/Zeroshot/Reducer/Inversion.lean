import Zeroshot.Reducer.Evaluation

set_option autoImplicit false

/-!
# What an evaluation can return

One inversion lemma per evaluation function: from a successful evaluation, the evaluations of the
children it was made of, the pure function that combined them, and the log. Later modules reason
about evaluations through these lemmas only.

The pure parts do not depend on the evaluation mode or on the cutoff. What a `decide` pass adds on
its own is a list of decisions (`Decisions`), except for dispatches and voids, which are named.
-/

namespace Zeroshot

open Logged

/-- A decision that only reports progress. -/
def Decision.isReport : Decision → Bool
  | .continues _ => true
  | .promote _ _ _ => true
  | .dispatch _ _ _ _ _ _ _ | .voidLoser _ _ | .terminal _ => false

/-- The log reports progress and does nothing else. -/
def Decisions (log : List Effect) : Prop :=
  ∀ effect ∈ log, ∃ d, effect = .decision d ∧ d.isReport = true

namespace Decisions

theorem nil : Decisions [] := fun _ h => nomatch h

theorem single {d : Decision} (h : d.isReport = true) : Decisions [.decision d] := fun _ hmem =>
  ⟨d, List.mem_singleton.mp hmem, h⟩

theorem append {first second : List Effect} (h : Decisions first) (h' : Decisions second) :
    Decisions (first ++ second) := fun effect hmem =>
  (List.mem_append.mp hmem).elim (h effect) (h' effect)

end Decisions

/-- The status ends the enclosing sequence: it is pending or terminal. -/
def Status.Stops (status : Status) : Prop := ∀ p, status ≠ .continuing p

theorem Status.stops_pending : Status.pending.Stops := fun _ h => nomatch h

theorem Status.stops_terminal (p : HistoryPosition) (r : TerminalResult) :
    (Status.terminal p r).Stops := fun _ h => nomatch h

namespace Engine

variable {engine : Engine}

/-! ## Decisions and promotion -/

theorem continueDecision_returns {node : NodeName} {mode : EvalMode} {u : Unit}
    {log : List Effect} (h : (continueDecision node mode).Returns u log) : Decisions log := by
  cases mode with
  | decide =>
    rw [continueDecision, returns_emit] at h
    exact h ▸ Decisions.single rfl
  | probe =>
    rw [continueDecision, returns_pure] at h
    exact h.2 ▸ Decisions.nil

theorem promoteDecision_returns {node : NodeName} {mapIndices : List Nat}
    {values : List PromotedValue} {mode : EvalMode} {u : Unit} {log : List Effect}
    (h : (promoteDecision node mapIndices values mode).Returns u log) : Decisions log := by
  cases mode <;> cases values <;> simp only [promoteDecision, returns_emit, returns_pure] at h
  case decide.cons => exact h ▸ Decisions.single rfl
  all_goals exact h.2 ▸ Decisions.nil

/-- The context `promote` leaves. -/
def promoted (engine : Engine) (node : NodeName) (paths : List FieldPath)
    (local' parent : Context) : Except ReducerError Context := do
  let optional ← engine.optionalPathsOf node
  let promoted ← promotePaths local' optional parent.state paths
  .ok (mergeRuntimeFacts local'
    { parent with
      state := promoted.1
      localWrites := OrdSet.extend parent.localWrites
        (promotedWritePaths local'.localWrites paths) })

theorem promote_returns {node : NodeName} {paths : List FieldPath} {local' parent c : Context}
    {t : Traversal} {log : List Effect}
    (h : (engine.promote node paths local' parent t).Returns c log) :
    engine.promoted node paths local' parent = .ok c ∧ Decisions log := by
  simp only [promote, returns_bind, returns_lift, returns_pure] at h
  obtain ⟨optional, _, _, ⟨hoptional, rfl⟩, ⟨values, _, _, ⟨hvalues, rfl⟩, ⟨_, first, _, hdecision,
    ⟨rfl, rfl⟩, rfl⟩, rfl⟩, rfl⟩ := h
  refine ⟨?_, ?_⟩
  · simp only [promoted, except_bind_eq_ok]
    exact ⟨optional, hoptional, values, hvalues, rfl⟩
  · simpa using promoteDecision_returns hdecision

/-! ## Executables -/

/-- The executions of a visit, in dispatch order. -/
def visitExecutions (engine : Engine) (occurrence : StructuralOccurrence) (number : Nat) :
    List DurableExecution :=
  nativeVisitExecutions number 0 (sortByDispatch (matching engine.executions occurrence))

/-- What a visit of an executable lets the evaluation see: the outcome of its last execution,
unless that is retried or lies after the cutoff. -/
def leafOutcome (engine : Engine) (spec : ExecutableSpec) (mapIndices : List Nat) (number : Nat)
    (cutoff : HistoryPosition) : Option (HistoryPosition × WorkerOutcome) :=
  (engine.visitExecutions ⟨spec.name, mapIndices⟩ number).getLast?.bind fun e =>
    (visibleOutcome cutoff e).filter fun outcome => !engine.isRetried spec e outcome.2

/-- The status and the context after a visit. -/
def leafResult (engine : Engine) (spec : ExecutableSpec) (mapIndices : List Nat)
    (outcome : Option (HistoryPosition × WorkerOutcome)) (context : Context) :
    Except ReducerError (Status × Context) :=
  match outcome with
  | none => .ok (.pending, context)
  | some (position, outcome) => do
    let applied ← engine.applyOutcome spec mapIndices outcome context
    .ok (.continuing position, applied.1)

/-- What evaluating an executable logs after its visit. -/
inductive LeafLog (engine : Engine) (spec : ExecutableSpec) (mapIndices : List Nat) (number : Nat)
    (input : Value) (t : Traversal) : Status → List Effect → Prop
  | waiting : LeafLog engine spec mapIndices number input t .pending []
  | missing (hempty : engine.visitExecutions ⟨spec.name, mapIndices⟩ number = [])
      (hmay : mayDispatch t = true) :
      LeafLog engine spec mapIndices number input t .pending
        [.dispatch ⟨(sortByDispatch (matching engine.executions
            ⟨spec.name, mapIndices⟩)).getLast?.map DurableExecution.nodeInstance,
          dispatchBoundary spec t PositiveInteger.one, ⟨spec.name, mapIndices⟩,
          PositiveInteger.one, t.loopIterations, spec.worker, input⟩]
  | retry (e : DurableExecution) (attempt : PositiveInteger)
      (hlast : (engine.visitExecutions ⟨spec.name, mapIndices⟩ number).getLast? = some e)
      (hcrashed : e.isCrashed = true) (hattempt : attempt.get = e.attempt.get + 1)
      (hceiling : attempt.get ≤ spec.attemptCeiling.get) (hmay : mayDispatch t = true) :
      LeafLog engine spec mapIndices number input t .pending
        [.dispatch ⟨some e.nodeInstance, dispatchBoundary spec t attempt, e.occurrence, attempt,
          t.loopIterations, spec.worker, input⟩]
  | done (position : HistoryPosition) (log : List Effect) (hlog : Decisions log) :
      LeafLog engine spec mapIndices number input t (.continuing position) log

theorem isCrashed_of_isRetried {spec : ExecutableSpec} {e : DurableExecution}
    {cutoff position : HistoryPosition} {outcome : WorkerOutcome}
    (hvisible : visibleOutcome cutoff e = some (position, outcome))
    (hretried : engine.isRetried spec e outcome = true) :
    e.isCrashed = true ∧ e.attempt.get < spec.attemptCeiling.get := by
  simp only [isRetried, Bool.and_eq_true, decide_eq_true_eq] at hretried
  obtain ⟨⟨-, hcrash⟩, hceiling⟩ := hretried
  refine ⟨?_, hceiling⟩
  unfold visibleOutcome at hvisible
  split at hvisible
  case h_1 p o hstate =>
    split at hvisible
    · cases hvisible
      rw [DurableExecution.isCrashed, hstate]
      split at hcrash <;> simp_all
    · cases hvisible
  all_goals cases hvisible

theorem promoteWrites_returns {spec : ExecutableSpec} {context : Context} {t : Traversal} {u : Unit}
    {log : List Effect} (h : (promoteWrites spec context t).Returns u log) : Decisions log := by
  unfold promoteWrites at h
  split at h
  · simp only [returns_bind, returns_lift, returns_emit] at h
    obtain ⟨values, _, _, ⟨-, rfl⟩, rfl, rfl⟩ := h
    exact Decisions.single rfl
  · exact (returns_pure.mp h).2 ▸ Decisions.nil

/-- The last execution of a visit exists: it is not visible, it is retried, or it is applied. -/
theorem finishExistingExecution_returns {spec : ExecutableSpec} {e : DurableExecution}
    {input : Value} {number : Nat} {context c : Context} {t : Traversal} {status : Status}
    {log : List Effect}
    (hlast : (engine.visitExecutions ⟨spec.name, t.mapIndices⟩ number).getLast? = some e)
    (h : (engine.finishExistingExecution spec e input context t).Returns (status, c) log) :
    engine.leafResult spec t.mapIndices (engine.leafOutcome spec t.mapIndices number t.cutoff)
        context = .ok (status, c) ∧
      LeafLog engine spec t.mapIndices number input t status log := by
  have hleaf : engine.leafOutcome spec t.mapIndices number t.cutoff =
      (visibleOutcome t.cutoff e).filter fun outcome => !engine.isRetried spec e outcome.2 := by
    rw [leafOutcome, hlast, Option.bind_some]
  rw [hleaf]
  unfold finishExistingExecution at h
  split at h
  case h_1 hvisible =>
    obtain ⟨hr, rfl⟩ := returns_pure.mp h
    cases hr
    rw [hvisible]
    exact ⟨rfl, .waiting⟩
  case h_2 position outcome hvisible =>
    rw [hvisible]
    split at h
    case isTrue hretried =>
      obtain ⟨hcrashed, hceiling⟩ := isCrashed_of_isRetried hvisible hretried
      rw [Option.filter_some, hretried]
      simp only [returns_bind, returns_pure] at h
      obtain ⟨_, first, _, hretry, ⟨hr, rfl⟩, rfl⟩ := h
      cases hr
      refine ⟨rfl, ?_⟩
      unfold dispatchRetry at hretry
      split at hretry
      case isTrue hmay =>
        split at hretry
        · exact absurd hretry returns_fail.mp
        · rename_i attempt hattempt
          rw [returns_emit.mp hretry]
          have hget : attempt.get = e.attempt.get + 1 := by
            unfold PositiveInteger.new at hattempt
            split at hattempt <;> cases hattempt
            rfl
          exact .retry e attempt hlast hcrashed hget (by omega) hmay
      case isFalse =>
        rw [(returns_pure.mp hretry).2]
        exact .waiting
    case isFalse hretried =>
      rw [Option.filter_some, Bool.eq_false_iff.mpr hretried]
      simp only [returns_bind, returns_lift] at h
      obtain ⟨applied, _, _, ⟨happlied, rfl⟩, h, rfl⟩ := h
      have hrest : (status, c) = (.continuing position, applied.1) ∧ Decisions log := by
        split at h
        · simp only [returns_bind, returns_pure] at h
          obtain ⟨_, _, _, hwrites, ⟨_, _, _, hcontinues, ⟨hr, rfl⟩, rfl⟩, rfl⟩ := h
          exact ⟨hr, (promoteWrites_returns hwrites).append
            ((continueDecision_returns hcontinues).append Decisions.nil)⟩
        · simp only [returns_bind, returns_pure] at h
          obtain ⟨_, _, _, hcontinues, ⟨hr, rfl⟩, rfl⟩ := h
          exact ⟨hr, (continueDecision_returns hcontinues).append Decisions.nil⟩
      obtain ⟨hr, hdecisions⟩ := hrest
      cases hr
      refine ⟨?_, .done _ _ hdecisions⟩
      simp only [Bool.not_false, if_true, leafResult, except_bind_eq_ok]
      exact ⟨applied, happlied, rfl⟩

/-- **A visit of an executable.** Its number, input and executions; what it saw; and what it
asked for. -/
theorem evalExecutable_returns {spec : ExecutableSpec} {context c : Context} {t : Traversal}
    {status : Status} {log : List Effect} (hmode : engine.executionMode = .nativeV2)
    (h : (engine.evalExecutable spec context t).Returns (status, c) log) :
    ∃ number input rest,
      number = nextVisit spec.name t.mapIndices context.controls ∧
      bindPayload spec.inputBindings context.state t.item = .ok input ∧
      (∀ e ∈ engine.visitExecutions ⟨spec.name, t.mapIndices⟩ number, e.input = input) ∧
      log = .visit ⟨⟨spec.name, t.mapIndices⟩, t.loopIterations, number, input,
        (engine.visitExecutions ⟨spec.name, t.mapIndices⟩ number).map
          DurableExecution.execution⟩ :: rest ∧
      engine.leafResult spec t.mapIndices (engine.leafOutcome spec t.mapIndices number t.cutoff)
        (markVisit spec.name t.mapIndices number context) = .ok (status, c) ∧
      LeafLog engine spec t.mapIndices number input t status rest := by
  simp only [evalExecutable, returns_bind, returns_lift] at h
  obtain ⟨resolution, _, _, ⟨hresolution, rfl⟩, h, rfl⟩ := h
  simp only [resolveVisit, hmode, resolveNativeVisit] at hresolution
  split at hresolution
  · cases hresolution
  cases hresolution
  simp only [returns_bind, returns_lift] at h
  obtain ⟨input, _, _, ⟨hinput, rfl⟩, h, rfl⟩ := h
  split at h
  · exact absurd h returns_fail.mp
  rename_i hinputs
  simp only [returns_bind, returns_emit] at h
  obtain ⟨_, _, rest, rfl, h, rfl⟩ := h
  have hsame : ∀ e ∈ engine.visitExecutions ⟨spec.name, t.mapIndices⟩
      (nextVisit spec.name t.mapIndices context.controls), e.input = input := by
    intro e he
    by_contra hne
    exact hinputs (List.any_eq_true.mpr ⟨e, he, by simpa using hne⟩)
  refine ⟨nextVisit spec.name t.mapIndices context.controls, input, rest, rfl, hinput, hsame,
    by simp [visitExecutions], ?_⟩
  split at h
  case h_1 hlast =>
    have hempty : engine.visitExecutions ⟨spec.name, t.mapIndices⟩
        (nextVisit spec.name t.mapIndices context.controls) = [] :=
      List.getLast?_eq_none_iff.mp hlast
    simp only [returns_bind, returns_pure] at h
    obtain ⟨_, first, _, hmissing, ⟨hr, rfl⟩, rfl⟩ := h
    cases hr
    refine ⟨by simp [leafOutcome, leafResult, hempty], ?_⟩
    unfold dispatchMissing at hmissing
    split at hmissing
    case isTrue hmay =>
      rw [returns_emit.mp hmissing]
      have hattempt : (((nativeVisitExecutions (nextVisit spec.name t.mapIndices context.controls) 0
          (sortByDispatch (matching engine.executions ⟨spec.name, t.mapIndices⟩))).getLast?).map
          DurableExecution.attempt).getD PositiveInteger.one = PositiveInteger.one := by
        rw [hlast]
        rfl
      simp only [hattempt]
      exact .missing hempty hmay
    case isFalse =>
      rw [(returns_pure.mp hmissing).2]
      exact .waiting
  case h_2 e hlast => exact finishExistingExecution_returns hlast h

/-! ## Sequences and choices -/

section

variable {context c : Context} {t : Traversal} {status : Status} {log : List Effect}

theorem runChildren_nil {position : HistoryPosition}
    (h : (runChildren [] position context t).Returns (status, c) log) :
    status = .continuing position ∧ c = context ∧ log = [] := by
  obtain ⟨hr, rfl⟩ := returns_pure.mp h
  cases hr
  exact ⟨rfl, rfl, rfl⟩

/-- The first child continues and the rest runs after it, or it stops the sequence. -/
theorem runChildren_cons {child : Evaluator} {rest : List Evaluator} {position : HistoryPosition}
    (h : (runChildren (child :: rest) position context t).Returns (status, c) log) :
    (∃ p c' first second, (child context t).Returns (.continuing p, c') first ∧
      (runChildren rest (max position p) c' t).Returns (status, c) second ∧
      log = first ++ second) ∨
    (∃ s, (child context t).Returns (s, c) log ∧ s.Stops ∧ status = s.after position) := by
  simp only [runChildren, returns_bind] at h
  obtain ⟨⟨s, c'⟩, first, second, hchild, hrest, rfl⟩ := h
  cases s with
  | continuing p => exact .inl ⟨p, c', first, second, hchild, hrest, rfl⟩
  | pending =>
    obtain ⟨hr, rfl⟩ := returns_pure.mp hrest
    cases hr
    rw [List.append_nil]
    exact .inr ⟨_, hchild, Status.stops_pending, rfl⟩
  | terminal p r =>
    obtain ⟨hr, rfl⟩ := returns_pure.mp hrest
    cases hr
    rw [List.append_nil]
    exact .inr ⟨_, hchild, Status.stops_terminal p r, rfl⟩

/-- The context after a sequence whose children ended with the given status and local context. -/
def closeSequence (engine : Engine) (group : Group) (context : Context) (status : Status)
    (local' : Context) : Except ReducerError Context :=
  match status with
  | .continuing _ => engine.promoted group.name group.promotedStatePaths local' context
  | .pending | .terminal _ _ => .ok context

theorem evalSequence_returns {group : Group} {children : List Evaluator}
    (h : (engine.evalSequence group children context t).Returns (status, c) log) :
    ∃ local' first second,
      (runChildren children HistoryPosition.zero context.clearWrites t).Returns (status, local')
        first ∧
      engine.closeSequence group context status local' = .ok c ∧
      log = first ++ second ∧ Decisions second := by
  simp only [evalSequence, returns_bind] at h
  obtain ⟨⟨s, local'⟩, first, second, hchildren, h, rfl⟩ := h
  cases s with
  | continuing p =>
    simp only [returns_bind, returns_pure] at h
    obtain ⟨_, _, _, hpromote, ⟨_, _, _, hcontinue, ⟨hr, rfl⟩, rfl⟩, rfl⟩ := h
    cases hr
    obtain ⟨hpromoted, hlog⟩ := promote_returns hpromote
    exact ⟨local', first, _, hchildren, hpromoted, rfl,
      hlog.append ((continueDecision_returns hcontinue).append Decisions.nil)⟩
  | pending =>
    obtain ⟨hr, rfl⟩ := returns_pure.mp h
    cases hr
    exact ⟨local', first, [], hchildren, rfl, rfl, Decisions.nil⟩
  | terminal p r =>
    obtain ⟨hr, rfl⟩ := returns_pure.mp h
    cases hr
    exact ⟨local', first, [], hchildren, rfl, rfl, Decisions.nil⟩

/-- The context after a choice whose branch ended with the given status and local context. -/
def closeChoice (engine : Engine) (group : Group) (context : Context) (status : Status)
    (local' : Context) : Except ReducerError Context :=
  match status with
  | .continuing _ => do
    let context ← engine.promoted group.name group.promotedStatePaths local' context
    .ok (mergeRuntimeFacts local' context)
  | .pending | .terminal _ _ => .ok context

theorem evalChoice_returns {group : Group} {branches : List (Guard × Evaluator)}
    {otherwise : Option Evaluator}
    (h : (engine.evalChoice group branches otherwise context t).Returns (status, c) log) :
    ∃ selected local' first second,
      engine.selectBranch context.clearWrites t.mapIndices branches otherwise = some selected ∧
      (selected context.clearWrites t).Returns (status, local') first ∧
      engine.closeChoice group context status local' = .ok c ∧
      log = first ++ second ∧ Decisions second := by
  simp only [evalChoice] at h
  split at h
  · exact absurd h returns_fail.mp
  rename_i selected hselected
  rw [returns_bind] at h
  obtain ⟨⟨s, local'⟩, first, second, hrun, h, rfl⟩ := h
  cases s with
  | continuing p =>
    simp only [returns_bind, returns_pure] at h
    obtain ⟨_, _, _, hpromote, ⟨_, _, _, hcontinue, ⟨hr, rfl⟩, rfl⟩, rfl⟩ := h
    cases hr
    obtain ⟨hpromoted, hlog⟩ := promote_returns hpromote
    refine ⟨selected, local', first, _, hselected, hrun, ?_, rfl,
      hlog.append ((continueDecision_returns hcontinue).append Decisions.nil)⟩
    simp only [closeChoice, except_bind_eq_ok]
    exact ⟨_, hpromoted, rfl⟩
  | pending =>
    obtain ⟨hr, rfl⟩ := returns_pure.mp h
    cases hr
    exact ⟨selected, local', first, [], hselected, hrun, rfl, rfl, Decisions.nil⟩
  | terminal p r =>
    obtain ⟨hr, rfl⟩ := returns_pure.mp h
    cases hr
    exact ⟨selected, local', first, [], hselected, hrun, rfl, rfl, Decisions.nil⟩

/-! ## Loops -/

/-- The traversal of one iteration. -/
def iterationTraversal (t : Traversal) (iteration : Nat) : Traversal :=
  { t with loopIterations := t.loopIterations ++ [iteration] }

/-- The context one iteration starts from. -/
def iterationContext (names : List NodeName) (t : Traversal) (local' : Context) : Context :=
  (clearScopedRuntimeFacts names t.mapIndices local').clearWrites

variable {names : List NodeName} {body : Evaluator} {untilGuard : Option Guard}

/-- The body continues, and then the loop converges or goes on; or the body stops the loop. -/
theorem runIterations_succ {remaining iteration : Nat} {position : HistoryPosition}
    {exit : LoopExit}
    (h : (engine.runIterations names body untilGuard t (remaining + 1) iteration position
      context).Returns exit log) :
    (∃ p c first second,
      (body (iterationContext names t context) (iterationTraversal t iteration)).Returns
        (.continuing p, c) first ∧ log = first ++ second ∧
      (untilGuard.any (engine.guard c t.mapIndices) = true ∧
          exit = .completed c (max position p) "converged" ∧ second = [] ∨
        untilGuard.any (engine.guard c t.mapIndices) = false ∧
          (engine.runIterations names body untilGuard t remaining (iteration + 1) (max position p)
            c).Returns exit second)) ∨
    (∃ s c, (body (iterationContext names t context) (iterationTraversal t iteration)).Returns
        (s, c) log ∧ s.Stops ∧ exit = .stopped (s.after position)) := by
  simp only [runIterations, returns_bind] at h
  obtain ⟨⟨s, c⟩, first, second, hbody, h, rfl⟩ := h
  cases s with
  | continuing p =>
    refine .inl ⟨p, c, first, second, hbody, rfl, ?_⟩
    dsimp only at h
    split at h
    case isTrue hguard =>
      obtain ⟨hr, rfl⟩ := returns_pure.mp h
      exact .inl ⟨hguard, hr, rfl⟩
    case isFalse hguard => exact .inr ⟨Bool.eq_false_iff.mpr hguard, h⟩
  | pending =>
    obtain ⟨hr, rfl⟩ := returns_pure.mp h
    rw [List.append_nil]
    exact .inr ⟨_, c, hbody, Status.stops_pending, hr⟩
  | terminal p r =>
    obtain ⟨hr, rfl⟩ := returns_pure.mp h
    rw [List.append_nil]
    exact .inr ⟨_, c, hbody, Status.stops_terminal p r, hr⟩

/-- The status and the context after a loop. -/
def closeLoop (engine : Engine) (group : Group) (names : List NodeName) (mapIndices : List Nat)
    (context : Context) : LoopExit → Except ReducerError (Status × Context)
  | .stopped status => .ok (status, context)
  | .completed local' position label => do
    let context ← engine.promoted group.name group.promotedStatePaths
      (engine.setGroupControl group.name "terminated" label mapIndices local')
      (clearScopedRuntimeFacts names mapIndices context)
    .ok (.continuing position, context)

theorem evalLoop_returns {group : Group} {body : Child} {maxIterations : PositiveInteger}
    (h : (engine.evalLoop group body untilGuard maxIterations context t).Returns (status, c) log) :
    ∃ exit first second,
      (engine.runIterations (group.name :: body.node.names) body.run untilGuard t
        maxIterations.get 1 HistoryPosition.zero context).Returns exit first ∧
      engine.closeLoop group (group.name :: body.node.names) t.mapIndices context exit =
        .ok (status, c) ∧
      log = first ++ second ∧ Decisions second := by
  simp only [evalLoop, returns_bind] at h
  obtain ⟨exit, first, second, hiterations, h, rfl⟩ := h
  cases exit with
  | stopped s =>
    obtain ⟨hr, rfl⟩ := returns_pure.mp h
    cases hr
    exact ⟨_, first, [], hiterations, rfl, rfl, Decisions.nil⟩
  | completed local' position label =>
    simp only [returns_bind, returns_pure] at h
    obtain ⟨_, _, _, hpromote, ⟨_, _, _, hcontinue, ⟨hr, rfl⟩, rfl⟩, rfl⟩ := h
    cases hr
    obtain ⟨hpromoted, hlog⟩ := promote_returns hpromote
    refine ⟨_, first, _, hiterations, ?_, rfl,
      hlog.append ((continueDecision_returns hcontinue).append Decisions.nil)⟩
    simp only [closeLoop, except_bind_eq_ok]
    exact ⟨_, hpromoted, rfl⟩

end

/-! ## Parallel groups -/

section

variable {group : Group} {join : Join} {branches : List Child} {context c : Context}
  {t : Traversal} {status : Status} {log : List Effect}

/-- The joined context of the winners' nodes and contexts, in order. -/
def joinContexts (group : Group) (mapIndices : List Nat) :
    List (GraphNode × Context) → Context → Except ReducerError Context
  | [], joined => .ok joined
  | (node, local') :: winners, joined => do
    let joined ← copyWrites local' joined
      (promotedWritePaths local'.localWrites group.promotedStatePaths)
    joinContexts group mapIndices winners
      (mergeScopedRuntimeFacts node.names mapIndices local' joined)

/-- One winner's evaluation: its branch, position, context and log. -/
structure WinnerRun where
  branch : Child
  position : HistoryPosition
  context : Context
  log : List Effect

theorem joinParallelWinners_returns {winners : List Nat} {joined joined' : Context}
    (h : (joinParallelWinners group branches context t winners joined).Returns joined' log) :
    ∃ runs : List WinnerRun,
      List.Forall₂ (fun index run => branches[index]? = some run.branch ∧
        (run.branch.run context.clearWrites t).Returns (.continuing run.position, run.context)
          run.log) winners runs ∧
      joinContexts group t.mapIndices (runs.map fun run => (run.branch.node, run.context)) joined =
        .ok joined' ∧
      log = (runs.map WinnerRun.log).flatten := by
  induction winners generalizing joined log with
  | nil =>
    obtain ⟨hr, rfl⟩ := returns_pure.mp h
    exact ⟨[], .nil, by rw [hr]; rfl, rfl⟩
  | cons index winners ih =>
    rw [joinParallelWinners] at h
    split at h
    · exact absurd h returns_fail.mp
    rename_i branch hbranch
    rw [returns_bind] at h
    obtain ⟨⟨s, local'⟩, first, _, hrun, h, rfl⟩ := h
    cases s with
    | continuing p =>
      simp only [returns_bind, returns_lift] at h
      obtain ⟨copied, _, _, ⟨hcopied, rfl⟩, h, rfl⟩ := h
      obtain ⟨runs, hruns, hjoined, rfl⟩ := ih h
      refine ⟨⟨branch, p, local', first⟩ :: runs, .cons ⟨hbranch, hrun⟩ hruns, ?_, rfl⟩
      simp only [List.map_cons, joinContexts, except_bind_eq_ok]
      exact ⟨copied, hcopied, hjoined⟩
    | pending => exact absurd h returns_fail.mp
    | terminal p r => exact absurd h returns_fail.mp

/-- Every effect of the winner loop comes from the evaluation of one winner. -/
theorem joinParallelWinners_mem_log {winners : List Nat} {joined joined' : Context}
    (h : (joinParallelWinners group branches context t winners joined).Returns joined' log)
    {effect : Effect} (heffect : effect ∈ log) :
    ∃ (index : Nat) (branch : Child) (p : HistoryPosition) (local' : Context)
      (inner : List Effect), index ∈ winners ∧ branches[index]? = some branch ∧
      (branch.run context.clearWrites t).Returns (.continuing p, local') inner ∧
      effect ∈ inner ∧ inner ⊆ log := by
  obtain ⟨runs, hruns, -, rfl⟩ := joinParallelWinners_returns h
  obtain ⟨inner, hinner, hmem⟩ := List.mem_flatten.mp heffect
  obtain ⟨run, hrun, rfl⟩ := List.mem_map.mp hinner
  obtain ⟨k, hk, rfl⟩ := List.getElem_of_mem hrun
  have hk' : k < winners.length := hruns.length_eq ▸ hk
  obtain ⟨hbranch, hwinner⟩ := (List.forall₂_iff_get.mp hruns).2 k hk' hk
  exact ⟨winners[k], _, _, _, _, List.getElem_mem hk', hbranch, hwinner, hmem,
    fun effect heffect => List.mem_flatten.mpr ⟨_, hinner, heffect⟩⟩

theorem emitParallelPromotion_returns {joined : Context} {u : Unit}
    (h : (engine.emitParallelPromotion group joined t).Returns u log) : Decisions log := by
  unfold emitParallelPromotion at h
  split at h
  · simp only [returns_bind, returns_lift] at h
    obtain ⟨_, _, _, ⟨-, rfl⟩, ⟨_, _, _, ⟨-, rfl⟩, hdecision, rfl⟩, rfl⟩ := h
    exact promoteDecision_returns hdecision
  · exact (returns_pure.mp h).2 ▸ Decisions.nil

/-- The record of a reached join. -/
def joinRecord (group : Group) (t : Traversal) (winners : List Nat) (position : HistoryPosition) :
    Effect :=
  .joined ⟨group.name, t.mapIndices, t.loopIterations, winners, position⟩

/-- The void scopes of a reached join: none when every branch is needed. -/
def joinScopes (branches : List Child) (t : Traversal) (required : Nat) (winners : List Nat)
    (position : HistoryPosition) : List Effect :=
  if required < branches.length then loserScopes t position winners 0 branches else []

/-- The context after a reached join. -/
def joinedContext (engine : Engine) (group : Group) (join : Join) (mapIndices : List Nat)
    (context joined : Context) : Context :=
  engine.recordParallelControl group join true mapIndices
    { joined with localWrites := OrdSet.extend joined.localWrites context.localWrites }

theorem finishParallelJoin_returns {required : Nat} {winners : List Nat}
    {position : HistoryPosition} {joined : Context}
    (h : (engine.finishParallelJoin group join branches required winners position joined context
      t).Returns (status, c) log) :
    ∃ first last, Decisions first ∧ Decisions last ∧ status = .continuing position ∧
      c = engine.joinedContext group join t.mapIndices context joined ∧
      log = first ++ joinRecord group t winners position ::
        (joinScopes branches t required winners position ++ last) := by
  simp only [finishParallelJoin, returns_bind, returns_emit] at h
  obtain ⟨_, first, _, hfirst, ⟨_, _, rest, rfl, h, rfl⟩, rfl⟩ := h
  have hrest : ∃ last, Decisions last ∧ (status, c) = (Status.continuing position,
      engine.joinedContext group join t.mapIndices context joined) ∧
      rest = joinScopes branches t required winners position ++ last := by
    unfold joinScopes
    split at h
    case isTrue hfew =>
      simp only [returns_bind, returns_emitAll, returns_pure] at h
      obtain ⟨_, _, _, rfl, ⟨_, last, _, hlast, ⟨hr, rfl⟩, rfl⟩, rfl⟩ := h
      exact ⟨last, continueDecision_returns hlast, hr, by rw [if_pos hfew, List.append_nil]⟩
    case isFalse hall =>
      simp only [returns_bind, returns_pure] at h
      obtain ⟨_, last, _, hlast, ⟨hr, rfl⟩, rfl⟩ := h
      exact ⟨last, continueDecision_returns hlast, hr, by simp [hall]⟩
  obtain ⟨last, hlast, hr, rfl⟩ := hrest
  cases hr
  exact ⟨first, last, emitParallelPromotion_returns hfirst, hlast, rfl, rfl, by simp [joinRecord]⟩

/-- The completions of a join in the order they win. -/
def completions (engine : Engine) (join : Join) (mapIndices : List Nat)
    (probes : List (Status × Context)) : List (Nat × HistoryPosition) :=
  (engine.parallelCompletions join mapIndices 0 probes).insertionSort completedBefore

/-- The branches that win a join, in the order they completed. -/
def winnersOf (engine : Engine) (join : Join) (mapIndices : List Nat)
    (probes : List (Status × Context)) : List (Nat × HistoryPosition) :=
  (engine.completions join mapIndices probes).take (parallelJoinRequired join probes.length)

/-- The position a settled join that cannot be reached continues at. -/
def unreachablePosition (probes : List (Status × Context)) : HistoryPosition :=
  latest ((probes.map fun probe => probe.1.position).filter
    fun position => position != HistoryPosition.max)

/-- **What a parallel visit can do.** The join is still open, can no longer be reached, or is
reached; `plog` is the log of the probes. -/
inductive ParallelRun (engine : Engine) (group : Group) (join : Join) (branches : List Child)
    (context : Context) (t : Traversal) (probes : List (Status × Context)) (plog : List Effect) :
    Status → Context → List Effect → Prop
  | opened (dlog : List Effect)
      (hfew : (engine.completions join t.mapIndices probes).length <
        parallelJoinRequired join probes.length)
      (hopen : ∃ probe ∈ probes, probe.1 = .pending)
      (hdecide : t.mode = .probe ∧ dlog = [] ∨ t.mode = .decide ∧ ∃ results,
        (forEach (fun branch => branch.run context t) branches).Returns results dlog) :
      ParallelRun engine group join branches context t probes plog .pending context (plog ++ dlog)
  | unreachable (dlog : List Effect)
      (hfew : (engine.completions join t.mapIndices probes).length <
        parallelJoinRequired join probes.length)
      (hsettled : ∀ probe ∈ probes, probe.1 ≠ .pending) (hlog : Decisions dlog) :
      ParallelRun engine group join branches context t probes plog
        (.continuing (unreachablePosition probes))
        (engine.recordParallelControl group join false t.mapIndices context) (plog ++ dlog)
  | reached (position : HistoryPosition) (joined : Context) (wlog first last : List Effect)
      (hmany : parallelJoinRequired join probes.length ≤
        (engine.completions join t.mapIndices probes).length)
      (hposition : position = latest ((engine.winnersOf join t.mapIndices probes).map Prod.snd))
      (hjoin : (joinParallelWinners group branches context { t with cutoff := position }
        ((engine.winnersOf join t.mapIndices probes).map Prod.fst) context.clearWrites).Returns
        joined wlog)
      (hfirst : Decisions first) (hlast : Decisions last) :
      ParallelRun engine group join branches context t probes plog (.continuing position)
        (engine.joinedContext group join t.mapIndices context joined)
        (plog ++ (wlog ++ (first ++ joinRecord group t
          ((engine.winnersOf join t.mapIndices probes).map Prod.fst) position ::
          (joinScopes branches t (parallelJoinRequired join probes.length)
            ((engine.winnersOf join t.mapIndices probes).map Prod.fst) position ++ last))))

theorem unreachedParallelJoin_returns {probes : List (Status × Context)}
    (h : (engine.unreachedParallelJoin group join branches probes context t).Returns (status, c)
      log) :
    (status = .pending ∧ c = context ∧ (∃ probe ∈ probes, probe.1 = .pending) ∧
      (t.mode = .probe ∧ log = [] ∨ t.mode = .decide ∧ ∃ results,
        (forEach (fun branch => branch.run context t) branches).Returns results log)) ∨
    (status = .continuing (unreachablePosition probes) ∧
      c = engine.recordParallelControl group join false t.mapIndices context ∧
      (∀ probe ∈ probes, probe.1 ≠ .pending) ∧ Decisions log) := by
  simp only [unreachedParallelJoin] at h
  split at h
  case isTrue hopen =>
    obtain ⟨probe, hprobe, hpending⟩ := List.any_eq_true.mp hopen
    left
    cases hmode : t.mode with
    | decide =>
      simp only [hmode, returns_bind, returns_pure] at h
      obtain ⟨results, dlog, _, hresults, ⟨hr, rfl⟩, rfl⟩ := h
      cases hr
      refine ⟨rfl, rfl, ⟨probe, hprobe, by simpa using hpending⟩, .inr ⟨rfl, results, ?_⟩⟩
      rwa [List.append_nil]
    | probe =>
      simp only [hmode, returns_pure] at h
      obtain ⟨hr, rfl⟩ := h
      cases hr
      exact ⟨rfl, rfl, ⟨probe, hprobe, by simpa using hpending⟩, .inl ⟨rfl, rfl⟩⟩
  case isFalse hsettled =>
    right
    simp only [returns_bind, returns_pure] at h
    obtain ⟨_, dlog, _, hcontinue, ⟨hr, rfl⟩, rfl⟩ := h
    cases hr
    refine ⟨rfl, rfl, ?_, (continueDecision_returns hcontinue).append Decisions.nil⟩
    intro probe hprobe hpending
    exact hsettled (List.any_eq_true.mpr ⟨probe, hprobe, by simpa using hpending⟩)

theorem evalParallel_returns
    (h : (engine.evalParallel group join branches context t).Returns (status, c) log) :
    ∃ probes plog, (probeParallel branches context t).Returns probes plog ∧
      ParallelRun engine group join branches context t probes plog status c log := by
  simp only [evalParallel, returns_bind] at h
  obtain ⟨probes, plog, rest, hprobes, h, rfl⟩ := h
  refine ⟨probes, plog, hprobes, ?_⟩
  have hlength : (engine.completions join t.mapIndices probes).length =
      (engine.parallelCompletions join t.mapIndices 0 probes).length :=
    List.length_insertionSort _ _
  split at h
  case isTrue hfew =>
    rw [← hlength] at hfew
    obtain ⟨rfl, rfl, hopen, hdecide⟩ | ⟨rfl, rfl, hsettled, hlog⟩ :=
      unreachedParallelJoin_returns h
    · exact .opened rest hfew hopen hdecide
    · exact .unreachable rest hfew hsettled hlog
  case isFalse hmany =>
    rw [← hlength, Nat.not_lt] at hmany
    rw [returns_bind] at h
    obtain ⟨joined, wlog, _, hjoin, h, rfl⟩ := h
    obtain ⟨first, last, hfirst, hlast, rfl, rfl, rfl⟩ := finishParallelJoin_returns h
    exact .reached _ joined wlog first last hmany rfl hjoin hfirst hlast

end

/-! ## Maps -/

section

variable {group : Group} {overItems : DataSelector} {maxItems : PositiveInteger} {body : Child}
  {context c : Context} {t : Traversal} {status : Status} {log : List Effect}

/-- The traversal of one item. -/
def itemTraversal (t : Traversal) (item : Value × Nat) : Traversal :=
  { t with mapIndices := t.mapIndices ++ [item.2], item := some item.1 }

/-- The traversal that decides a terminal item. -/
def terminalTraversal (t : Traversal) (item : Value × Nat) (position : HistoryPosition) :
    Traversal :=
  { t with mapIndices := t.mapIndices ++ [item.2], item := some item.1, cutoff := position }

section

variable {run : Evaluator} {items : List Value} {results : List MapItemResult}

/-- One item's evaluation, seen from its result. -/
def ItemRun (run : Evaluator) (context : Context) (t : Traversal) (item : Value × Nat)
    (result : MapItemResult) (log : List Effect) : Prop :=
  result.scope = t.mapIndices ++ [item.2] ∧
    (run context.clearWrites (itemTraversal t item)).Returns (result.status, result.context) log

theorem itemRun_of_returns {item : Value × Nat} {result : MapItemResult}
    (h : Returns (do
      let (status, itemContext) ← run context.clearWrites
        { t with mapIndices := t.mapIndices ++ [item.2], item := some item.1 }
      pure ⟨status, itemContext, t.mapIndices ++ [item.2]⟩) result log) :
    ItemRun run context t item result log := by
  simp only [returns_bind, returns_pure] at h
  obtain ⟨⟨s, c⟩, _, _, hrun, ⟨hr, hnil⟩, hlog⟩ := h
  rw [hlog, hnil, hr, List.append_nil]
  exact ⟨rfl, hrun⟩

theorem evaluateMapItems_length (h : (evaluateMapItems run context t items).Returns results log) :
    results.length = items.length := by
  rw [forEach_length h, List.length_zipIdx]

theorem evaluateMapItems_get (h : (evaluateMapItems run context t items).Returns results log)
    {k : Nat} {item : Value} (hitem : items[k]? = some item) :
    ∃ result inner, results[k]? = some result ∧ ItemRun run context t (item, k) result inner ∧
      inner ⊆ log := by
  have hzip : items.zipIdx[k]? = some (item, k) := by simp [List.getElem?_zipIdx, hitem]
  obtain ⟨result, inner, hresult, hrun, hsub⟩ := forEach_get h hzip
  exact ⟨result, inner, hresult, itemRun_of_returns hrun, hsub⟩

theorem evaluateMapItems_get_result
    (h : (evaluateMapItems run context t items).Returns results log) {k : Nat}
    {result : MapItemResult} (hresult : results[k]? = some result) :
    ∃ item inner, items[k]? = some item ∧ ItemRun run context t (item, k) result inner ∧
      inner ⊆ log := by
  have hk : k < items.length :=
    evaluateMapItems_length h ▸ (List.getElem?_eq_some_iff.mp hresult).1
  obtain ⟨result', inner, hresult', hrun, hsub⟩ :=
    evaluateMapItems_get h (List.getElem?_eq_getElem hk)
  rw [hresult] at hresult'
  cases hresult'
  exact ⟨_, inner, List.getElem?_eq_getElem hk, hrun, hsub⟩

theorem evaluateMapItems_mem_log (h : (evaluateMapItems run context t items).Returns results log)
    {effect : Effect} (heffect : effect ∈ log) :
    ∃ (k : Nat) (item : Value) (result : MapItemResult) (inner : List Effect),
      items[k]? = some item ∧ results[k]? = some result ∧
      ItemRun run context t (item, k) result inner ∧ effect ∈ inner ∧ inner ⊆ log := by
  obtain ⟨k, pair, result, inner, hpair, hresult, hrun, hmem, hsub⟩ := forEach_mem_log h heffect
  obtain ⟨item, hitem, rfl⟩ : ∃ item, items[k]? = some item ∧ pair = (item, k) := by
    simp only [List.getElem?_zipIdx, Nat.zero_add, Option.map_eq_some_iff] at hpair
    obtain ⟨item, hitem, rfl⟩ := hpair
    exact ⟨item, hitem, rfl⟩
  exact ⟨k, item, result, inner, hitem, hresult, itemRun_of_returns hrun, hmem, hsub⟩

end

/-- The void scope of a map whose item `index` is terminal. -/
def itemScope (body : GraphNode) (t : Traversal) (index : Nat) (position : HistoryPosition) :
    Effect :=
  .void ⟨body.names, t.mapIndices, some (t.mapIndices ++ [index]), position, .mapTerminal,
    t.mode == .decide⟩

/-- The record of a map whose item `index` is terminal. -/
def itemRecord (group : Group) (t : Traversal) (index : Nat) (position : HistoryPosition) :
    Effect :=
  .itemTerminated ⟨group.name, t.mapIndices, t.loopIterations, index, position⟩

/-- The context after a map all of whose items continue. -/
def closeMap (engine : Engine) (group : Group) (body : GraphNode) (mapIndices : List Nat)
    (results : List MapItemResult) (context : Context) : Except ReducerError Context := do
  let collected ← collectItems (results.map MapItemResult.context) context
    group.promotedStatePaths
  let context ← engine.promoted group.name collected.2
    (engine.setGroupControl group.name "overflow" "ok" mapIndices collected.1) context
  .ok (mergeItems body.names results context)

/-- **What a map visit over `items` can do** once the items fit the limit: an item is terminal, an
item is pending, or all continue; `plog` is the log of the probes. -/
inductive MapRun (engine : Engine) (group : Group) (body : Child) (context : Context)
    (t : Traversal) (items : List Value) (probes : List MapItemResult) (plog : List Effect) :
    Status → Context → List Effect → Prop
  | terminal (index : Nat) (found : Status) (item : Value) (status : Status) (dlog : List Effect)
      (hfound : earliestTerminal 0 probes = some (index, found)) (hitem : items[index]? = some item)
      (hrun : t.mode = .probe ∧ status = found ∧ dlog = [] ∨ t.mode = .decide ∧ ∃ c,
        (body.run context (terminalTraversal t (item, index) found.position)).Returns (status, c)
          dlog) :
      MapRun engine group body context t items probes plog status context
        (plog ++ (dlog ++ [itemRecord group t index status.position,
          itemScope body.node t index status.position]))
  | pending (results : List MapItemResult) (rlog : List Effect)
      (hnone : earliestTerminal 0 probes = none)
      (hresults : t.mode = .probe ∧ results = probes ∧ rlog = [] ∨ t.mode = .decide ∧
        (evaluateMapItems body.run context t items).Returns results rlog)
      (hpending : ∃ result ∈ results, result.status = .pending) :
      MapRun engine group body context t items probes plog .pending context (plog ++ rlog)
  | finished (results : List MapItemResult) (rlog dlog : List Effect) (c : Context)
      (hnone : earliestTerminal 0 probes = none)
      (hresults : t.mode = .probe ∧ results = probes ∧ rlog = [] ∨ t.mode = .decide ∧
        (evaluateMapItems body.run context t items).Returns results rlog)
      (hsettled : ∀ result ∈ results, result.status ≠ .pending)
      (hclose : engine.closeMap group body.node t.mapIndices results context = .ok c)
      (hlog : Decisions dlog) :
      MapRun engine group body context t items probes plog
        (.continuing (latest (results.map fun result => result.status.position))) c
        (plog ++ (rlog ++ dlog))

theorem finishTerminalMapItem_returns {items : List Value} {index : Nat} {found : Status}
    (h : (finishTerminalMapItem group body items index found context t).Returns (status, c) log) :
    ∃ item dlog, items[index]? = some item ∧ c = context ∧
      (t.mode = .probe ∧ status = found ∧ dlog = [] ∨ t.mode = .decide ∧ ∃ c',
        (body.run context (terminalTraversal t (item, index) found.position)).Returns (status, c')
          dlog) ∧
      log = dlog ++ [itemRecord group t index status.position,
        itemScope body.node t index status.position] := by
  simp only [finishTerminalMapItem] at h
  split at h
  · exact absurd h returns_fail.mp
  rename_i item hitem
  cases hmode : t.mode with
  | decide =>
    simp only [hmode, returns_bind, returns_emit, returns_pure] at h
    obtain ⟨⟨s, c'⟩, dlog, _, hrun, ⟨_, _, _, ⟨rfl, rfl⟩, ⟨_, _, _, rfl, ⟨_, _, _, rfl, ⟨hr, rfl⟩,
      rfl⟩, rfl⟩, rfl⟩, rfl⟩ := h
    cases hr
    refine ⟨item, dlog, hitem, rfl, .inr ⟨rfl, c', ?_⟩, ?_⟩
    · simpa only [terminalTraversal, hmode] using hrun
    · simp [itemRecord, itemScope, hmode]
  | probe =>
    simp only [hmode, returns_bind, returns_emit, returns_pure] at h
    obtain ⟨_, _, _, ⟨rfl, rfl⟩, ⟨_, _, _, rfl, ⟨_, _, _, rfl, ⟨hr, rfl⟩, rfl⟩, rfl⟩, rfl⟩ := h
    cases hr
    exact ⟨item, [], hitem, rfl, .inl ⟨rfl, rfl, rfl⟩, by simp [itemRecord, itemScope, hmode]⟩

theorem settleMap_returns {results : List MapItemResult}
    (h : (engine.settleMap group body results context t).Returns (status, c) log) :
    (status = .pending ∧ c = context ∧ log = [] ∧ ∃ result ∈ results, result.status = .pending) ∨
    (status = .continuing (latest (results.map fun result => result.status.position)) ∧
      (∀ result ∈ results, result.status ≠ .pending) ∧
      engine.closeMap group body.node t.mapIndices results context = .ok c ∧ Decisions log) := by
  unfold settleMap at h
  split at h
  case isTrue hpending =>
    obtain ⟨result, hresult, hstatus⟩ := List.any_eq_true.mp hpending
    obtain ⟨hr, rfl⟩ := returns_pure.mp h
    cases hr
    exact .inl ⟨rfl, rfl, rfl, result, hresult, by simpa using hstatus⟩
  case isFalse hsettled =>
    simp only [finishMap, returns_bind, returns_lift, returns_pure] at h
    obtain ⟨collected, _, _, ⟨hcollected, rfl⟩, ⟨promoted, _, _, hpromote, ⟨_, _, _, hcontinue,
      ⟨hr, rfl⟩, rfl⟩, rfl⟩, rfl⟩ := h
    cases hr
    obtain ⟨hpromoted, hlog⟩ := promote_returns hpromote
    refine .inr ⟨rfl, ?_, ?_, hlog.append ((continueDecision_returns hcontinue).append
      Decisions.nil)⟩
    · intro result hresult hstatus
      exact hsettled (List.any_eq_true.mpr ⟨result, hresult, by simpa using hstatus⟩)
    · simp only [closeMap, except_bind_eq_ok]
      exact ⟨collected, hcollected, _, hpromoted, rfl⟩

/-- A map visit selects its items; too many of them overflow, else `MapRun` applies. -/
theorem evalMap_returns
    (h : (engine.evalMap group overItems maxItems body context t).Returns (status, c) log) :
    ∃ selected items, selectData overItems context.state t.item = .ok selected ∧
      selected.asArray = some items ∧
      (maxItems.get < items.length ∧ status = .continuing HistoryPosition.zero ∧
          c = engine.setGroupControl group.name "overflow" "overflow" t.mapIndices context ∧
          Decisions log ∨
        items.length ≤ maxItems.get ∧ ∃ probes plog,
          (evaluateMapItems body.run context { t with mode := .probe } items).Returns probes plog ∧
          MapRun engine group body context t items probes plog status c log) := by
  simp only [evalMap, returns_bind, returns_lift] at h
  obtain ⟨selected, _, _, ⟨hselected, rfl⟩, h, rfl⟩ := h
  split at h
  · exact absurd h returns_fail.mp
  rename_i items hitems
  refine ⟨selected, items, hselected, hitems, ?_⟩
  split at h
  case isTrue hmany =>
    simp only [mapOverflow, returns_bind, returns_pure] at h
    obtain ⟨_, _, _, hcontinue, ⟨hr, rfl⟩, rfl⟩ := h
    cases hr
    exact .inl ⟨hmany, rfl, rfl, (continueDecision_returns hcontinue).append Decisions.nil⟩
  case isFalse hfit =>
    rw [returns_bind] at h
    obtain ⟨probes, plog, rest, hprobes, h, rfl⟩ := h
    refine .inr ⟨Nat.le_of_not_lt hfit, probes, plog, hprobes, ?_⟩
    split at h
    case h_1 index found hfound =>
      obtain ⟨item, dlog, hitem, rfl, hrun, rfl⟩ := finishTerminalMapItem_returns h
      exact .terminal index found item status dlog hfound hitem hrun
    case h_2 hnone =>
      cases hmode : t.mode with
      | probe =>
        simp only [hmode] at h
        obtain ⟨rfl, rfl, rfl, hpending⟩ | ⟨rfl, hsettled, hclose, hlog⟩ := settleMap_returns h
        · exact .pending probes [] hnone (.inl ⟨hmode, rfl, rfl⟩) hpending
        · exact .finished probes [] rest c hnone (.inl ⟨hmode, rfl, rfl⟩) hsettled hclose hlog
      | decide =>
        simp only [hmode, returns_bind] at h
        obtain ⟨results, rlog, _, hresults, h, rfl⟩ := h
        obtain ⟨rfl, rfl, rfl, hpending⟩ | ⟨rfl, hsettled, hclose, hlog⟩ := settleMap_returns h
        · rw [List.append_nil]
          exact .pending results rlog hnone (.inr ⟨hmode, hresults⟩) hpending
        · exact .finished results rlog _ c hnone (.inr ⟨hmode, hresults⟩) hsettled hclose hlog

end

/-! ## Terminals -/

theorem evalSucceed_returns {node : SucceedNode} {context c : Context} {t : Traversal}
    {status : Status} {log : List Effect}
    (h : (evalSucceed node context t).Returns (status, c) log) :
    ∃ output, bindPayload node.bindings context.state t.item = .ok output ∧
      status = .terminal HistoryPosition.zero (.succeeded output) ∧ c = context ∧ log = [] := by
  simp only [evalSucceed, returns_bind, returns_lift, returns_pure] at h
  obtain ⟨output, _, _, ⟨houtput, rfl⟩, ⟨hr, rfl⟩, rfl⟩ := h
  cases hr
  exact ⟨output, houtput, rfl, rfl, rfl⟩

theorem evalFail_returns {node : FailNode} {context c : Context} {t : Traversal}
    {status : Status} {log : List Effect} (h : (evalFail node context t).Returns (status, c) log) :
    status = .terminal HistoryPosition.zero (.failed node.reason.asLabel none) ∧ c = context ∧
      log = [] := by
  obtain ⟨hr, rfl⟩ := returns_pure.mp h
  cases hr
  exact ⟨rfl, rfl, rfl⟩

end Engine

end Zeroshot
