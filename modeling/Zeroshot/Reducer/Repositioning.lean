import Zeroshot.Lib.Ranking
import Zeroshot.Reducer.Configuration

set_option autoImplicit false

/-!
# Moved positions

Two evaluations over histories that differ in their positions only, where comparing two positions
of one history gives what comparing their counterparts gives (`Moves`). Every evaluator compares
positions, takes the larger of two, and uses one as a cutoff, and nothing else; so both evaluations
return the same context and the same status up to its position, and log the same effects up to
theirs.
-/

namespace Zeroshot

open Logged

/-! ## The relation -/

/-- A matching of positions that keeps comparisons and the two ends. -/
structure Moves (M : HistoryPosition → HistoryPosition → Prop) : Prop where
  order : OrderMatch M
  zero : M HistoryPosition.zero HistoryPosition.zero
  max : M HistoryPosition.max HistoryPosition.max

variable {M : HistoryPosition → HistoryPosition → Prop}

variable (M) in
inductive MovedStatus : Status → Status → Prop
  | pending : MovedStatus .pending .pending
  | continuing {p p' : HistoryPosition} (h : M p p') : MovedStatus (.continuing p) (.continuing p')
  | terminal {p p' : HistoryPosition} (h : M p p') (projection : TerminalResult) :
      MovedStatus (.terminal p projection) (.terminal p' projection)

variable (M) in
inductive MovedState : DurableExecutionState → DurableExecutionState → Prop
  | active : MovedState .active .active
  | settled {p p' : HistoryPosition} (h : M p p') (outcome : WorkerOutcome) :
      MovedState (.settled p outcome) (.settled p' outcome)
  | voided {p p' : HistoryPosition} (h : M p p') (reason : ExecutionVoidReason) :
      MovedState (.voided p reason) (.voided p' reason)

variable (M) in
/-- The same execution at moved positions. -/
structure MovedExecution (e e' : DurableExecution) : Prop where
  dispatched : M e.dispatchPosition e'.dispatchPosition
  state : MovedState M e.state e'.state
  rest : e' = { e with dispatchPosition := e'.dispatchPosition, state := e'.state }

variable (M) in
structure MovedTraversal (t t' : Traversal) : Prop where
  cutoff : M t.cutoff t'.cutoff
  rest : t' = { t with cutoff := t'.cutoff }

variable (M) in
/-- The same effect at moved positions. -/
inductive MovedEffect : Effect → Effect → Prop
  | visit (visit : Visit) : MovedEffect (.visit visit) (.visit visit)
  | dispatch (request : DispatchRequest) : MovedEffect (.dispatch request) (.dispatch request)
  | void (scope : VoidScope) {p' : HistoryPosition} (h : M scope.cutoff p') :
      MovedEffect (.void scope) (.void { scope with cutoff := p' })
  | joined (record : JoinRecord) {p' : HistoryPosition} (h : M record.position p') :
      MovedEffect (.joined record) (.joined { record with position := p' })
  | itemTerminated (record : ItemRecord) {p' : HistoryPosition} (h : M record.position p') :
      MovedEffect (.itemTerminated record) (.itemTerminated { record with position := p' })
  | decision (decision : Decision) : MovedEffect (.decision decision) (.decision decision)

variable (M) in
/-- A moved status and the same context. -/
def MovedResult (r r' : Status × Context) : Prop := MovedStatus M r.1 r'.1 ∧ r.2 = r'.2

variable (M) in
/-- The evaluators do the same at moved positions. -/
def MovedRun (run run' : Evaluator) : Prop :=
  ∀ context t t', MovedTraversal M t t' →
    Related (MovedEffect M) (MovedResult M) (run context t) (run' context t')

/-! ## Statuses and traversals -/

theorem MovedStatus.pos (hM : Moves M) {status status' : Status}
    (h : MovedStatus M status status') : M status.position status'.position := by
  cases h with
  | pending => exact hM.max
  | continuing h => exact h
  | terminal h projection => exact h

theorem MovedStatus.after (hM : Moves M) {status status' : Status} {p p' : HistoryPosition}
    (h : MovedStatus M status status') (hp : M p p') :
    MovedStatus M (status.after p) (status'.after p') := by
  cases h with
  | pending => exact .pending
  | continuing h => exact .continuing h
  | terminal h projection => exact .terminal (hM.order.max h hp) projection

theorem MovedStatus.pending_iff {status status' : Status} (h : MovedStatus M status status') :
    (status == .pending) = (status' == .pending) := by
  cases h <;> rfl

namespace MovedTraversal

variable {t t' : Traversal} (h : MovedTraversal M t t')
include h

theorem eq_withCutoff : ∃ c', t' = { t with cutoff := c' } ∧ M t.cutoff c' :=
  ⟨t'.cutoff, h.rest, h.cutoff⟩

theorem enterGroup (name : NodeName) :
    MovedTraversal M (Engine.enterGroup name t) (Engine.enterGroup name t') := by
  obtain ⟨c', rfl, hc⟩ := h.eq_withCutoff
  exact ⟨hc, rfl⟩

theorem withMode (mode : EvalMode) : MovedTraversal M { t with mode } { t' with mode } := by
  obtain ⟨c', rfl, hc⟩ := h.eq_withCutoff
  exact ⟨hc, rfl⟩

theorem withCutoff {p p' : HistoryPosition} (hp : M p p') :
    MovedTraversal M { t with cutoff := p } { t' with cutoff := p' } := by
  obtain ⟨c', rfl, -⟩ := h.eq_withCutoff
  exact ⟨hp, rfl⟩

theorem inLoop (loopIterations : List Nat) :
    MovedTraversal M { t with loopIterations } { t' with loopIterations } := by
  obtain ⟨c', rfl, hc⟩ := h.eq_withCutoff
  exact ⟨hc, rfl⟩

theorem inItem (mapIndices : List Nat) (item : Option Value) :
    MovedTraversal M { t with mapIndices, item } { t' with mapIndices, item } := by
  obtain ⟨c', rfl, hc⟩ := h.eq_withCutoff
  exact ⟨hc, rfl⟩

theorem mayDispatch (hM : Moves M) : Engine.mayDispatch t' = Engine.mayDispatch t := by
  obtain ⟨c', rfl, hc⟩ := h.eq_withCutoff
  have hmax := hM.order.eq_iff hc hM.max
  unfold Engine.mayDispatch
  simp only [beq_eq_decide, hmax]

end MovedTraversal

/-! ## Executions -/

namespace MovedExecution

variable {e e' : DurableExecution} (h : MovedExecution M e e')
include h

theorem eq_moved : ∃ p' s', e' = { e with dispatchPosition := p', state := s' } ∧
    M e.dispatchPosition p' ∧ MovedState M e.state s' :=
  ⟨e'.dispatchPosition, e'.state, h.rest, h.dispatched, h.state⟩

theorem isActive : e'.isActive = e.isActive := by
  obtain ⟨d', s', rfl, -, hs⟩ := h.eq_moved
  unfold DurableExecution.isActive
  revert hs
  generalize e.state = s
  intro hs
  cases hs <;> rfl

theorem isSettled : e'.isSettled = e.isSettled := by
  obtain ⟨d', s', rfl, -, hs⟩ := h.eq_moved
  unfold DurableExecution.isSettled
  revert hs
  generalize e.state = s
  intro hs
  cases hs <;> rfl

theorem isCrashed : e'.isCrashed = e.isCrashed := by
  obtain ⟨d', s', rfl, -, hs⟩ := h.eq_moved
  unfold DurableExecution.isCrashed
  revert hs
  generalize e.state = s
  intro hs
  cases hs with
  | active => rfl
  | voided hp reason => rfl
  | settled hp outcome =>
    cases outcome with
    | error code reason => cases code <;> rfl
    | verified output diagnostic => rfl
    | verifier output signals diagnostic artifacts => rfl

theorem visibleOutcome (hM : Moves M) {c c' : HistoryPosition} (hc : M c c') :
    Engine.visibleOutcome c e = none ∧ Engine.visibleOutcome c' e' = none ∨
      ∃ p p' outcome, Engine.visibleOutcome c e = some (p, outcome) ∧
        Engine.visibleOutcome c' e' = some (p', outcome) ∧ M p p' := by
  obtain ⟨d', s', rfl, hd, hs⟩ := h.eq_moved
  unfold Engine.visibleOutcome
  cases hstate : e.state with
  | active =>
    rw [hstate] at hs
    cases hs
    exact .inl ⟨rfl, rfl⟩
  | voided p reason =>
    rw [hstate] at hs
    cases hs
    exact .inl ⟨rfl, rfl⟩
  | settled p outcome =>
    rw [hstate] at hs
    cases hs with
    | @settled _ p' hp _ =>
      dsimp only
      by_cases hseen : e.dispatchPosition ≤ c ∧ p ≤ c
      · have hseen' : d' ≤ c' ∧ p' ≤ c' :=
          ⟨(hM.order.le_iff hd hc).mp hseen.1, (hM.order.le_iff hp hc).mp hseen.2⟩
        rw [if_pos hseen, if_pos hseen']
        exact .inr ⟨p, p', outcome, rfl, rfl, hp⟩
      · have hseen' : ¬ (d' ≤ c' ∧ p' ≤ c') := fun hseen' => hseen
          ⟨(hM.order.le_iff hd hc).mpr hseen'.1, (hM.order.le_iff hp hc).mpr hseen'.2⟩
        rw [if_neg hseen, if_neg hseen']
        exact .inl ⟨rfl, rfl⟩

end MovedExecution

/-! ## Engines -/

variable (M) in
structure MovedVisit (visit visit' : Engine.ExecutableVisit) : Prop where
  matching : List.Forall₂ (MovedExecution M) visit.matching visit'.matching
  executions : List.Forall₂ (MovedExecution M) visit.executions visit'.executions
  existing : Option.Rel (MovedExecution M) visit.existing visit'.existing
  occurrence : visit'.occurrence = visit.occurrence
  number : visit'.number = visit.number
  attempt : visit'.attempt = visit.attempt

/-- What positions have no part in is the same for moved executions. -/
theorem map_moved {β : Type} {f : DurableExecution → β} {l l' : List DurableExecution}
    (hf : ∀ e e', MovedExecution M e e' → f e' = f e) (h : List.Forall₂ (MovedExecution M) l l') :
    l'.map f = l.map f := by
  induction h with
  | nil => rfl
  | cons he _ ih => rw [List.map_cons, List.map_cons, ih, hf _ _ he]

namespace MovedVisit

variable {visit visit' : Engine.ExecutableVisit} (h : MovedVisit M visit visit')
include h

theorem inputs (input : Value) : (visit'.executions.any fun e => e.input != input) =
    visit.executions.any fun e => e.input != input := by
  have hmap := map_moved (f := DurableExecution.input) (fun e e' he => by rw [he.rest])
    h.executions
  have hany := congrArg (fun inputs => inputs.any fun i => i != input) hmap
  rw [List.any_map, List.any_map] at hany
  exact hany

theorem ids : visit'.executions.map DurableExecution.execution =
    visit.executions.map DurableExecution.execution :=
  map_moved (fun e e' he => by rw [he.rest]) h.executions

end MovedVisit

variable (M) in
inductive MovedResolution : Engine.VisitResolution → Engine.VisitResolution → Prop
  | exhausted : MovedResolution .exhausted .exhausted
  | ready {visit visit' : Engine.ExecutableVisit} (h : MovedVisit M visit visit') :
      MovedResolution (.ready visit) (.ready visit')

variable (M) in
/-- The engines find the same executions for every visit, at moved positions. -/
structure MovedEngine (engine engine' : Engine) : Prop extends Configured engine engine' where
  mode : engine.executionMode = engine'.executionMode
  resolve : ∀ spec context mapIndices, Related (MovedEffect M) (MovedResolution M)
    (lift (engine.resolveVisit spec context mapIndices))
    (lift (engine'.resolveVisit spec context mapIndices))

/-- What both evaluations do alike: nothing, or one and the same step. -/
theorem related_unit (x : Walk Unit)
    (h : x = Pure.pure () ∨ ∃ decision, x = emit (.decision decision)) :
    Related (MovedEffect M) (fun _ _ => True) x x := by
  rcases h with rfl | ⟨decision, rfl⟩
  · exact .pure trivial
  · exact .emit (.decision decision)

namespace Engine

theorem continueDecision_moved (node : NodeName) (mode : EvalMode) :
    Related (MovedEffect M) (fun _ _ => True) (continueDecision node mode)
      (continueDecision node mode) := by
  cases mode with
  | decide => exact related_unit _ (.inr ⟨_, rfl⟩)
  | probe => exact related_unit _ (.inl rfl)

theorem promoteDecision_moved (node : NodeName) (mapIndices : List Nat)
    (values : List PromotedValue) (mode : EvalMode) :
    Related (MovedEffect M) (fun _ _ => True) (promoteDecision node mapIndices values mode)
      (promoteDecision node mapIndices values mode) := by
  cases mode with
  | probe => exact related_unit _ (.inl rfl)
  | decide =>
    cases values with
    | nil => exact related_unit _ (.inl rfl)
    | cons value values => exact related_unit _ (.inr ⟨_, rfl⟩)

section

variable {engine engine' : Engine}

theorem promote_moved (hconfig : Configured engine engine') (node : NodeName)
    (paths : List FieldPath) (local' parent : Context) {t t' : Traversal}
    (ht : MovedTraversal M t t') :
    Related (MovedEffect M) Eq (engine.promote node paths local' parent t)
      (engine'.promote node paths local' parent t') := by
  obtain ⟨c', rfl, -⟩ := ht.eq_withCutoff
  unfold promote
  rw [hconfig.optionalPathsOf]
  refine .bind_lift _ fun optional => .bind_lift _ fun promoted => ?_
  refine (promoteDecision_moved _ _ _ _).bind fun _ _ _ => ?_
  exact .pure rfl

theorem promoteWrites_moved (spec : ExecutableSpec) (context : Context) {t t' : Traversal}
    (ht : MovedTraversal M t t') :
    Related (MovedEffect M) (fun _ _ => True) (promoteWrites spec context t)
      (promoteWrites spec context t') := by
  obtain ⟨c', rfl, -⟩ := ht.eq_withCutoff
  unfold promoteWrites
  dsimp only
  split
  · exact .bind_lift _ fun values => .emit (.decision _)
  · exact .pure trivial

variable (hM : Moves M)
include hM

theorem dispatchMissing_moved (spec : ExecutableSpec) {visit visit' : ExecutableVisit}
    (hvisit : MovedVisit M visit visit') (input : Value) {t t' : Traversal}
    (ht : MovedTraversal M t t') :
    Related (MovedEffect M) (fun _ _ => True) (dispatchMissing spec visit input t)
      (dispatchMissing spec visit' input t') := by
  have hinstance : visit'.matching.getLast?.map DurableExecution.nodeInstance =
      visit.matching.getLast?.map DurableExecution.nodeInstance := by
    rcases forall₂_getLast? hvisit.matching with ⟨hnone, hnone'⟩ | ⟨e, e', hlast, hlast', he⟩
    · rw [hnone, hnone']
    · rw [hlast, hlast', Option.map_some, Option.map_some, he.rest]
  unfold dispatchMissing
  rw [ht.mayDispatch hM]
  split
  · obtain ⟨c', rfl, -⟩ := ht.eq_withCutoff
    rw [hinstance, hvisit.attempt, hvisit.occurrence]
    exact .emit (.dispatch _)
  · exact .pure trivial

theorem dispatchRetry_moved (spec : ExecutableSpec) {e e' : DurableExecution}
    (he : MovedExecution M e e') (input : Value) {t t' : Traversal} (ht : MovedTraversal M t t') :
    Related (MovedEffect M) (fun _ _ => True) (dispatchRetry spec e input t)
      (dispatchRetry spec e' input t') := by
  obtain ⟨p', s', rfl, -, -⟩ := he.eq_moved
  unfold dispatchRetry
  rw [ht.mayDispatch hM]
  obtain ⟨c', rfl, -⟩ := ht.eq_withCutoff
  split
  · cases PositiveInteger.new (e.attempt.get + 1) with
    | none => exact .fail _
    | some attempt => exact .emit (.dispatch _)
  · exact .pure trivial

variable (hengine : MovedEngine M engine engine')
include hengine

theorem finishExistingExecution_moved (spec : ExecutableSpec) {e e' : DurableExecution}
    (he : MovedExecution M e e') (input : Value) :
    MovedRun M (engine.finishExistingExecution spec e input)
      (engine'.finishExistingExecution spec e' input) := by
  intro context t t' ht
  unfold finishExistingExecution
  rcases he.visibleOutcome hM ht.cutoff with ⟨hnone, hnone'⟩ | ⟨p, p', outcome, hsome, hsome', hp⟩
  · simp only [hnone, hnone']
    exact .pure ⟨.pending, rfl⟩
  · have hretried : engine'.isRetried spec e' outcome = engine.isRetried spec e outcome := by
      obtain ⟨d', s', rfl, -, -⟩ := he.eq_moved
      unfold isRetried
      rw [hengine.mode]
    simp only [hsome, hsome', hretried]
    split
    · refine (dispatchRetry_moved hM spec he input ht).bind fun _ _ _ => ?_
      exact .pure ⟨.pending, rfl⟩
    · rw [hengine.applyOutcome, show t'.mapIndices = t.mapIndices by rw [ht.rest]]
      refine .bind_lift _ fun applied => ?_
      rw [show t'.mode = t.mode by rw [ht.rest]]
      have hfinish : Related (MovedEffect M) (MovedResult M)
          (do continueDecision spec.name t.mode
              pure (Status.continuing p, applied.1))
          (do continueDecision spec.name t.mode
              pure (Status.continuing p', applied.1)) :=
        (continueDecision_moved _ _).bind fun _ _ _ => .pure ⟨.continuing hp, rfl⟩
      split
      · exact (promoteWrites_moved spec applied.1 ht).bind fun _ _ _ => hfinish
      · exact hfinish

theorem evalExecutable_moved (spec : ExecutableSpec) :
    MovedRun M (engine.evalExecutable spec) (engine'.evalExecutable spec) := by
  intro context t t' ht
  unfold evalExecutable
  obtain ⟨c', rfl, hc⟩ := ht.eq_withCutoff
  refine (hengine.resolve spec context t.mapIndices).bind fun resolution resolution' hresolve => ?_
  cases hresolve with
  | exhausted => exact .pure ⟨.terminal hM.zero _, rfl⟩
  | @ready visit visit' hvisit =>
    refine .bind_lift _ fun input => ?_
    rw [hvisit.inputs input, hvisit.ids, hvisit.occurrence, hvisit.number]
    split
    · exact .fail _
    · refine (Related.emit (.visit _)).bind fun _ _ _ => ?_
      have hexisting := hvisit.existing
      cases hsome : visit.existing with
      | none =>
        cases hsome' : visit'.existing with
        | some e' =>
          rw [hsome, hsome'] at hexisting
          cases hexisting
        | none =>
          refine (dispatchMissing_moved hM spec hvisit input ht).bind fun _ _ _ => ?_
          exact .pure ⟨.pending, rfl⟩
      | some e =>
        cases hsome' : visit'.existing with
        | none =>
          rw [hsome, hsome'] at hexisting
          cases hexisting
        | some e' =>
          rw [hsome, hsome'] at hexisting
          cases hexisting with
          | some he => exact finishExistingExecution_moved hM hengine spec he input _ _ _ ht

end

/-! ## Sequences and choices -/

variable {engine engine' : Engine}

/-- What follows a child that continued at moved positions, or the child's own status. -/
theorem runChildren_moved (hM : Moves M) {children children' : List Evaluator}
    (h : List.Forall₂ (MovedRun M) children children') {p p' : HistoryPosition} (hp : M p p') :
    MovedRun M (runChildren children p) (runChildren children' p') := by
  induction h generalizing p p' with
  | nil => exact fun context t t' ht => .pure ⟨.continuing hp, rfl⟩
  | cons hchild _ ih =>
    intro context t t' ht
    refine (hchild context t t' ht).bind fun r r' hr => ?_
    obtain ⟨status, local'⟩ := r
    obtain ⟨status', local''⟩ := r'
    obtain ⟨hstatus, rfl⟩ := hr
    cases hstatus with
    | pending => exact .pure ⟨.pending, rfl⟩
    | continuing hq => exact ih (hM.order.max hp hq) local' t t' ht
    | terminal hq projection =>
      exact .pure ⟨(MovedStatus.terminal hq projection).after hM hp, rfl⟩

/-- The promotion and the continue decision that end a group visit. -/
theorem closeGroup_moved (hconfig : Configured engine engine') (group : Group)
    (paths : List FieldPath) (local' parent : Context) {p p' : HistoryPosition} (hp : M p p')
    (f : Context → Context) {t t' : Traversal} (ht : MovedTraversal M t t') :
    Related (MovedEffect M) (MovedResult M)
      (do let context ← engine.promote group.name paths local' parent t
          continueDecision group.name t.mode
          pure (Status.continuing p, f context))
      (do let context ← engine'.promote group.name paths local' parent t'
          continueDecision group.name t'.mode
          pure (Status.continuing p', f context)) := by
  refine (promote_moved hconfig group.name paths local' parent ht).bind fun context _ hcontext => ?_
  subst hcontext
  rw [show t'.mode = t.mode by rw [ht.rest]]
  exact (continueDecision_moved _ _).bind fun _ _ _ => .pure ⟨.continuing hp, rfl⟩

theorem evalSequence_moved (hM : Moves M) (hconfig : Configured engine engine') (group : Group)
    {children children' : List Evaluator} (h : List.Forall₂ (MovedRun M) children children') :
    MovedRun M (engine.evalSequence group children) (engine'.evalSequence group children') := by
  intro context t t' ht
  refine (runChildren_moved hM h hM.zero context.clearWrites t t' ht).bind fun r r' hr => ?_
  obtain ⟨status, local'⟩ := r
  obtain ⟨status', local''⟩ := r'
  obtain ⟨hstatus, rfl⟩ := hr
  cases hstatus with
  | pending => exact .pure ⟨.pending, rfl⟩
  | continuing hq => exact closeGroup_moved hconfig group _ local' context hq id ht
  | terminal hq projection => exact .pure ⟨.terminal hq projection, rfl⟩

variable (M) in
/-- Branches with the same guards and evaluators that do the same at moved positions. -/
def MovedBranch (branch branch' : Guard × Evaluator) : Prop :=
  branch.1 = branch'.1 ∧ MovedRun M branch.2 branch'.2

theorem selectBranch_moved (hconfig : Configured engine engine') (context : Context)
    (mapIndices : List Nat) {branches branches' : List (Guard × Evaluator)}
    (h : List.Forall₂ (MovedBranch M) branches branches') {otherwise otherwise' : Option Evaluator}
    (ho : Option.Rel (MovedRun M) otherwise otherwise') :
    Option.Rel (MovedRun M) (engine.selectBranch context mapIndices branches otherwise)
      (engine'.selectBranch context mapIndices branches' otherwise') := by
  unfold selectBranch
  rw [hconfig.guard]
  induction h with
  | nil => exact ho
  | @cons branch branch' _ _ hbranch _ ih =>
    obtain ⟨guard, run⟩ := branch
    obtain ⟨guard', run'⟩ := branch'
    obtain ⟨rfl, hrun⟩ := hbranch
    simp only [List.find?_cons]
    cases engine'.guard context mapIndices guard with
    | true => exact .some hrun
    | false => exact ih

theorem evalChoice_moved (hconfig : Configured engine engine') (group : Group)
    {branches branches' : List (Guard × Evaluator)}
    (h : List.Forall₂ (MovedBranch M) branches branches') {otherwise otherwise' : Option Evaluator}
    (ho : Option.Rel (MovedRun M) otherwise otherwise') :
    MovedRun M (engine.evalChoice group branches otherwise)
      (engine'.evalChoice group branches' otherwise') := by
  intro context t t' ht
  have hselected := selectBranch_moved hconfig context.clearWrites t.mapIndices h ho
  unfold evalChoice
  rw [show t'.mapIndices = t.mapIndices by rw [ht.rest]]
  revert hselected
  generalize engine.selectBranch context.clearWrites t.mapIndices branches otherwise = selected
  generalize engine'.selectBranch context.clearWrites t.mapIndices branches' otherwise' = selected'
  intro hselected
  cases hselected with
  | none => exact .fail _
  | some hrun =>
    refine (hrun context.clearWrites t t' ht).bind fun r r' hr => ?_
    obtain ⟨status, local'⟩ := r
    obtain ⟨status', local''⟩ := r'
    obtain ⟨hstatus, rfl⟩ := hr
    cases hstatus with
    | pending => exact .pure ⟨.pending, rfl⟩
    | continuing hq =>
      exact closeGroup_moved hconfig group _ local' context hq (mergeRuntimeFacts local') ht
    | terminal hq projection => exact .pure ⟨.terminal hq projection, rfl⟩

/-! ## Loops -/

variable (M) in
inductive MovedExit : LoopExit → LoopExit → Prop
  | stopped {status status' : Status} (h : MovedStatus M status status') :
      MovedExit (.stopped status) (.stopped status')
  | completed (local' : Context) {p p' : HistoryPosition} (h : M p p') (label : String) :
      MovedExit (.completed local' p label) (.completed local' p' label)

theorem runIterations_moved (hM : Moves M) (hconfig : Configured engine engine')
    (names : List NodeName) {body body' : Evaluator} (hbody : MovedRun M body body')
    (untilGuard : Option Guard) {t t' : Traversal} (ht : MovedTraversal M t t')
    (remaining iteration : Nat) {p p' : HistoryPosition} (hp : M p p') (local' : Context) :
    Related (MovedEffect M) (MovedExit M)
      (engine.runIterations names body untilGuard t remaining iteration p local')
      (engine'.runIterations names body' untilGuard t' remaining iteration p' local') := by
  induction remaining generalizing iteration p p' local' with
  | zero => exact .pure (.completed local' hp "exhausted")
  | succ remaining ih =>
    have hin := ht.inLoop (t.loopIterations ++ [iteration])
    obtain ⟨c', rfl, -⟩ := ht.eq_withCutoff
    unfold runIterations
    rw [hconfig.guard]
    refine (hbody _ _ _ hin).bind fun r r' hr => ?_
    obtain ⟨status, after⟩ := r
    obtain ⟨status', after'⟩ := r'
    obtain ⟨hstatus, rfl⟩ := hr
    cases hstatus with
    | pending => exact .pure (.stopped .pending)
    | terminal hq projection =>
      exact .pure (.stopped ((MovedStatus.terminal hq projection).after hM hp))
    | continuing hq =>
      dsimp only
      split
      · exact .pure (.completed after (hM.order.max hp hq) "converged")
      · exact ih (iteration + 1) (hM.order.max hp hq) after

theorem evalLoop_moved (hM : Moves M) (hconfig : Configured engine engine') (group : Group)
    (node : GraphNode) {body body' : Evaluator} (hbody : MovedRun M body body')
    (untilGuard : Option Guard) (maxIterations : PositiveInteger) :
    MovedRun M (engine.evalLoop group ⟨node, body⟩ untilGuard maxIterations)
      (engine'.evalLoop group ⟨node, body'⟩ untilGuard maxIterations) := by
  intro context t t' ht
  unfold evalLoop
  refine (runIterations_moved hM hconfig _ hbody untilGuard ht _ 1 hM.zero context).bind
    fun exit exit' hexit => ?_
  cases hexit with
  | stopped hstatus => exact .pure ⟨hstatus, rfl⟩
  | completed local' hp label =>
    dsimp only
    rw [show t'.mapIndices = t.mapIndices by rw [ht.rest], hconfig.setGroupControl]
    exact closeGroup_moved hconfig group _ _ _ hp id ht

/-! ## Parallel groups -/

variable (M) in
/-- The same child with an evaluator that does the same at moved positions. -/
structure MovedChild (child child' : Child) : Prop where
  node : child.node = child'.node
  run : MovedRun M child.run child'.run

variable (M) in
/-- The same branch, completed at a moved position. -/
def MovedCompletion (c c' : Nat × HistoryPosition) : Prop := c.1 = c'.1 ∧ M c.2 c'.2

theorem probeParallel_moved {branches branches' : List Child}
    (h : List.Forall₂ (MovedChild M) branches branches') (context : Context) {t t' : Traversal}
    (ht : MovedTraversal M t t') :
    Related (MovedEffect M) (List.Forall₂ (MovedResult M)) (probeParallel branches context t)
      (probeParallel branches' context t') :=
  .forEach h fun _ _ hbranch => hbranch.run _ _ _ (ht.withMode .probe)

theorem parallelCompletions_moved (hconfig : Configured engine engine') (join : Join)
    (mapIndices : List Nat) (index : Nat) {probes probes' : List (Status × Context)}
    (h : List.Forall₂ (MovedResult M) probes probes') :
    List.Forall₂ (MovedCompletion M) (engine.parallelCompletions join mapIndices index probes)
      (engine'.parallelCompletions join mapIndices index probes') := by
  rw [hconfig.parallelCompletions]
  induction h generalizing index with
  | nil => exact .nil
  | @cons probe probe' _ _ hprobe _ ih =>
    obtain ⟨status, branch⟩ := probe
    obtain ⟨status', branch'⟩ := probe'
    obtain ⟨hstatus, rfl⟩ := hprobe
    cases hstatus with
    | pending => exact ih (index + 1)
    | terminal hp projection => exact ih (index + 1)
    | continuing hp =>
      unfold parallelCompletions
      split
      · exact .cons ⟨rfl, hp⟩ (ih (index + 1))
      · exact ih (index + 1)

theorem completedBefore_moved (hM : Moves M) {a a' b b' : Nat × HistoryPosition}
    (ha : MovedCompletion M a a') (hb : MovedCompletion M b b') :
    completedBefore a b ↔ completedBefore a' b' := by
  unfold completedBefore
  rw [hM.order.lt_iff ha.2 hb.2, hM.order.eq_iff ha.2 hb.2, ha.1, hb.1]

theorem latest_moved (hM : Moves M) {ps ps' : List HistoryPosition} (h : List.Forall₂ M ps ps') :
    M (latest ps) (latest ps') :=
  hM.order.foldr_max h hM.zero

theorem indices_moved {l l' : List (Nat × HistoryPosition)}
    (h : List.Forall₂ (MovedCompletion M) l l') : l'.map Prod.fst = l.map Prod.fst := by
  induction h with
  | nil => rfl
  | cons hhead _ ih => rw [List.map_cons, List.map_cons, ih, hhead.1]

theorem positions_moved {l l' : List (Nat × HistoryPosition)}
    (h : List.Forall₂ (MovedCompletion M) l l') :
    List.Forall₂ M (l.map Prod.snd) (l'.map Prod.snd) := by
  induction h with
  | nil => exact .nil
  | cons hhead _ ih => exact .cons hhead.2 ih

theorem settledPositions_moved (hM : Moves M) {probes probes' : List (Status × Context)}
    (h : List.Forall₂ (MovedResult M) probes probes') :
    List.Forall₂ M
      ((probes.map fun probe => probe.1.position).filter fun p => p != HistoryPosition.max)
      ((probes'.map fun probe => probe.1.position).filter fun p => p != HistoryPosition.max) := by
  induction h with
  | nil => exact .nil
  | @cons probe probe' _ _ hprobe _ ih =>
    have hp := hprobe.1.pos hM
    rw [List.map_cons, List.map_cons]
    by_cases hmax : probe.1.position = HistoryPosition.max
    · have hmax' : probe'.1.position = HistoryPosition.max := (hM.order.eq_iff hp hM.max).mp hmax
      rw [List.filter_cons_of_neg (by simp [hmax]), List.filter_cons_of_neg (by simp [hmax'])]
      exact ih
    · have hmax' : probe'.1.position ≠ HistoryPosition.max := fun hmax' =>
        hmax ((hM.order.eq_iff hp hM.max).mpr hmax')
      rw [List.filter_cons_of_pos (by simp [hmax]), List.filter_cons_of_pos (by simp [hmax'])]
      exact .cons hp ih

theorem anyPending_moved {probes probes' : List (Status × Context)}
    (h : List.Forall₂ (MovedResult M) probes probes') :
    (probes.any fun probe => probe.1 == .pending) =
      probes'.any fun probe => probe.1 == .pending := by
  induction h with
  | nil => rfl
  | cons hhead _ ih => rw [List.any_cons, List.any_cons, ih, hhead.1.pending_iff]

theorem unreachedParallelJoin_moved (hM : Moves M) (hconfig : Configured engine engine')
    (group : Group) (join : Join) {branches branches' : List Child}
    (h : List.Forall₂ (MovedChild M) branches branches') {probes probes' : List (Status × Context)}
    (hprobes : List.Forall₂ (MovedResult M) probes probes') :
    MovedRun M (engine.unreachedParallelJoin group join branches probes)
      (engine'.unreachedParallelJoin group join branches' probes') := by
  intro context t t' ht
  have hmode : t'.mode = t.mode := by rw [ht.rest]
  have hmapIndices : t'.mapIndices = t.mapIndices := by rw [ht.rest]
  unfold unreachedParallelJoin
  rw [hmode, hmapIndices, ← anyPending_moved hprobes, hconfig.recordParallelControl]
  split
  · cases t.mode with
    | probe => exact .pure ⟨.pending, rfl⟩
    | decide =>
      refine (Related.forEach h fun _ _ hbranch => hbranch.run context t t' ht).bind
        fun _ _ _ => ?_
      exact .pure ⟨.pending, rfl⟩
  · refine (continueDecision_moved _ _).bind fun _ _ _ => ?_
    exact .pure ⟨.continuing (latest_moved hM (settledPositions_moved hM hprobes)), rfl⟩

theorem joinParallelWinners_moved (group : Group) {branches branches' : List Child}
    (h : List.Forall₂ (MovedChild M) branches branches') (context : Context) {t t' : Traversal}
    (ht : MovedTraversal M t t') (winners : List Nat) (joined : Context) :
    Related (MovedEffect M) Eq (joinParallelWinners group branches context t winners joined)
      (joinParallelWinners group branches' context t' winners joined) := by
  induction winners generalizing joined with
  | nil => exact .pure rfl
  | cons index winners ih =>
    unfold joinParallelWinners
    rcases forall₂_getElem? h index with ⟨hnone, hnone'⟩ | ⟨branch, branch', hsome, hsome', hbranch⟩
    · rw [hnone, hnone']
      exact .fail _
    · rw [hsome, hsome']
      refine (hbranch.run _ _ _ ht).bind fun r r' hr => ?_
      obtain ⟨status, local'⟩ := r
      obtain ⟨status', local''⟩ := r'
      obtain ⟨hstatus, rfl⟩ := hr
      rw [hbranch.node, show t'.mapIndices = t.mapIndices by rw [ht.rest]]
      cases hstatus with
      | pending => exact .fail _
      | terminal hp projection => exact .fail _
      | continuing hp => exact .bind_lift _ fun copied => ih _

theorem emitParallelPromotion_moved (hconfig : Configured engine engine') (group : Group)
    (joined : Context) {t t' : Traversal} (ht : MovedTraversal M t t') :
    Related (MovedEffect M) (fun _ _ => True) (engine.emitParallelPromotion group joined t)
      (engine'.emitParallelPromotion group joined t') := by
  obtain ⟨c', rfl, -⟩ := ht.eq_withCutoff
  unfold emitParallelPromotion
  rw [hconfig.optionalPathsOf]
  dsimp only
  split
  · refine .bind_lift _ fun optional => .bind_lift _ fun values => ?_
    exact promoteDecision_moved _ _ _ _
  · exact .pure trivial

theorem loserScopes_moved {branches branches' : List Child}
    (h : List.Forall₂ (MovedChild M) branches branches') {t t' : Traversal}
    (ht : MovedTraversal M t t') {p p' : HistoryPosition} (hp : M p p') (winners : List Nat)
    (index : Nat) :
    List.Forall₂ (MovedEffect M) (loserScopes t p winners index branches)
      (loserScopes t' p' winners index branches') := by
  obtain ⟨c', rfl, -⟩ := ht.eq_withCutoff
  induction h generalizing index with
  | nil => exact .nil
  | @cons branch branch' _ _ hbranch _ ih =>
    unfold loserScopes
    rw [hbranch.node]
    split
    · exact ih (index + 1)
    · exact .cons (.void _ hp) (ih (index + 1))

theorem finishParallelJoin_moved (hconfig : Configured engine engine') (group : Group)
    (join : Join) {branches branches' : List Child}
    (h : List.Forall₂ (MovedChild M) branches branches') (required : Nat) (winners : List Nat)
    {p p' : HistoryPosition} (hp : M p p') (joined context : Context) {t t' : Traversal}
    (ht : MovedTraversal M t t') :
    Related (MovedEffect M) (MovedResult M)
      (engine.finishParallelJoin group join branches required winners p joined context t)
      (engine'.finishParallelJoin group join branches' required winners p' joined context t') := by
  have hmode : t'.mode = t.mode := by rw [ht.rest]
  have hmapIndices : t'.mapIndices = t.mapIndices := by rw [ht.rest]
  have hloopIterations : t'.loopIterations = t.loopIterations := by rw [ht.rest]
  unfold finishParallelJoin
  rw [hmode, hmapIndices, hloopIterations, ← h.length_eq, hconfig.recordParallelControl]
  refine (emitParallelPromotion_moved hconfig group joined ht).bind fun _ _ _ => ?_
  refine (Related.emit (.joined _ hp)).bind fun _ _ _ => ?_
  have hcontinue : Related (MovedEffect M) (MovedResult M)
      (do continueDecision group.name t.mode
          pure (Status.continuing p, engine'.recordParallelControl group join true t.mapIndices
            { joined with localWrites := OrdSet.extend joined.localWrites context.localWrites }))
      (do continueDecision group.name t.mode
          pure (Status.continuing p', engine'.recordParallelControl group join true t.mapIndices
            { joined with localWrites := OrdSet.extend joined.localWrites context.localWrites })) :=
    (continueDecision_moved _ _).bind fun _ _ _ => .pure ⟨.continuing hp, rfl⟩
  split
  · exact (Related.emitAll (loserScopes_moved h ht hp winners 0)).bind fun _ _ _ => hcontinue
  · exact hcontinue

theorem evalParallel_moved (hM : Moves M) (hconfig : Configured engine engine') (group : Group)
    (join : Join) {branches branches' : List Child}
    (h : List.Forall₂ (MovedChild M) branches branches') :
    MovedRun M (engine.evalParallel group join branches)
      (engine'.evalParallel group join branches') := by
  intro context t t' ht
  unfold evalParallel
  refine (probeParallel_moved h context ht).bind fun probes probes' hprobes => ?_
  obtain ⟨c', rfl, -⟩ := ht.eq_withCutoff
  have hcompleted := parallelCompletions_moved hconfig join t.mapIndices 0 hprobes
  dsimp only
  rw [← hprobes.length_eq, ← hcompleted.length_eq]
  split
  · exact unreachedParallelJoin_moved hM hconfig group join h hprobes context t _ ht
  · have hwinners := List.forall₂_take (parallelJoinRequired join probes.length)
      (forall₂_insertionSort (R := MovedCompletion M)
        (fun _ _ _ _ ha hb => completedBefore_moved hM ha hb) hcompleted)
    have hlatest := latest_moved hM (positions_moved hwinners)
    rw [indices_moved hwinners]
    refine (joinParallelWinners_moved group h context (ht.withCutoff hlatest) _ _).bind
      fun joined _ hjoined => ?_
    subst hjoined
    exact finishParallelJoin_moved hconfig group join h _ _ hlatest joined context ht

/-! ## Maps -/

variable (M) in
/-- The same item result at a moved position. -/
structure MovedItem (result result' : MapItemResult) : Prop where
  status : MovedStatus M result.status result'.status
  context : result.context = result'.context
  scope : result.scope = result'.scope

theorem evaluateMapItems_moved {body body' : Evaluator} (hbody : MovedRun M body body')
    (context : Context) {t t' : Traversal} (ht : MovedTraversal M t t') (items : List Value) :
    Related (MovedEffect M) (List.Forall₂ (MovedItem M)) (evaluateMapItems body context t items)
      (evaluateMapItems body' context t' items) := by
  refine Related.forEach (List.forall₂_eq_eq_eq ▸ rfl) fun item _ hitem => ?_
  subst hitem
  obtain ⟨c', rfl, -⟩ := ht.eq_withCutoff
  refine (hbody _ _ _ (ht.inItem (t.mapIndices ++ [item.2]) (some item.1))).bind fun r r' hr => ?_
  exact .pure ⟨hr.1, hr.2, rfl⟩

variable (M) in
/-- The same item, terminated at a moved position. -/
def MovedTerminal (found found' : Nat × Status) : Prop :=
  found.1 = found'.1 ∧ MovedStatus M found.2 found'.2

theorem earliestTerminal_moved (hM : Moves M) {results results' : List MapItemResult}
    (h : List.Forall₂ (MovedItem M) results results') (index : Nat) :
    Option.Rel (MovedTerminal M) (earliestTerminal index results)
      (earliestTerminal index results') := by
  induction h generalizing index with
  | nil => exact .none
  | @cons result result' results results' hhead _ ih =>
    obtain ⟨status, context, scope⟩ := result
    obtain ⟨status', context', scope'⟩ := result'
    obtain ⟨hstatus, -, -⟩ := hhead
    unfold earliestTerminal
    cases hstatus with
    | pending => exact ih (index + 1)
    | continuing hp => exact ih (index + 1)
    | terminal hp projection =>
      have hrest := ih (index + 1)
      revert hrest
      generalize earliestTerminal (index + 1) results = rest
      generalize earliestTerminal (index + 1) results' = rest'
      intro hrest
      cases hrest with
      | none => exact .some ⟨rfl, .terminal hp projection⟩
      | @some found found' hfound =>
        obtain ⟨other, status⟩ := found
        obtain ⟨other', status'⟩ := found'
        obtain ⟨rfl, hother⟩ := hfound
        dsimp only
        rw [if_congr (hM.order.le_iff hp (hother.pos hM)) rfl rfl]
        split
        · exact .some ⟨rfl, .terminal hp projection⟩
        · exact .some ⟨rfl, hother⟩

/-- The records that end a map visit one of whose items is terminal. -/
theorem terminateItem_moved (hM : Moves M) (group : Group) (names : List NodeName)
    (index : Nat) (context : Context) (t : Traversal) {status status' : Status}
    (h : MovedStatus M status status') :
    Related (MovedEffect M) (MovedResult M)
      (do emit (.itemTerminated ⟨group.name, t.mapIndices, t.loopIterations, index,
            status.position⟩)
          emit (.void ⟨names, t.mapIndices, some (t.mapIndices ++ [index]), status.position,
            .mapTerminal, t.mode == .decide⟩)
          pure (status, context) : Walk (Status × Context))
      (do emit (.itemTerminated ⟨group.name, t.mapIndices, t.loopIterations, index,
            status'.position⟩)
          emit (.void ⟨names, t.mapIndices, some (t.mapIndices ++ [index]), status'.position,
            .mapTerminal, t.mode == .decide⟩)
          pure (status', context) : Walk (Status × Context)) := by
  have hp := h.pos hM
  refine (Related.emit (.itemTerminated _ hp)).bind fun _ _ _ => ?_
  refine (Related.emit (.void _ hp)).bind fun _ _ _ => ?_
  exact .pure ⟨h, rfl⟩

theorem finishTerminalMapItem_moved (hM : Moves M) (group : Group) {body body' : Child}
    (hbody : MovedChild M body body') (items : List Value) (index : Nat)
    {terminal terminal' : Status} (hterminal : MovedStatus M terminal terminal') :
    MovedRun M (finishTerminalMapItem group body items index terminal)
      (finishTerminalMapItem group body' items index terminal') := by
  intro context t t' ht
  unfold finishTerminalMapItem
  cases items[index]? with
  | none => exact .fail _
  | some item =>
    have hinner := (ht.inItem (t.mapIndices ++ [index]) (some item)).withCutoff
      (hterminal.pos hM)
    obtain ⟨c', rfl, -⟩ := ht.eq_withCutoff
    obtain ⟨mapIndices, loopIterations, boundary, inherited, mode, cutoff⟩ := t
    rw [← hbody.node]
    cases mode with
    | probe =>
      exact terminateItem_moved hM group body.node.names index context
        ⟨mapIndices, loopIterations, boundary, inherited, .probe, cutoff⟩ hterminal
    | decide =>
      refine (hbody.run context _ _ hinner).bind fun r r' hr => ?_
      exact terminateItem_moved hM group body.node.names index context
        ⟨mapIndices, loopIterations, boundary, inherited, .decide, cutoff⟩ hr.1

theorem itemPositions_moved (hM : Moves M) {results results' : List MapItemResult}
    (h : List.Forall₂ (MovedItem M) results results') :
    List.Forall₂ M (results.map fun result => result.status.position)
      (results'.map fun result => result.status.position) := by
  induction h with
  | nil => exact .nil
  | cons hhead _ ih => exact .cons (hhead.status.pos hM) ih

theorem itemContexts_moved {results results' : List MapItemResult}
    (h : List.Forall₂ (MovedItem M) results results') :
    results'.map MapItemResult.context = results.map MapItemResult.context := by
  induction h with
  | nil => rfl
  | cons hhead _ ih => rw [List.map_cons, List.map_cons, ih, hhead.context]

theorem mergeItems_moved (names : List NodeName) {results results' : List MapItemResult}
    (h : List.Forall₂ (MovedItem M) results results') (context : Context) :
    mergeItems names results' context = mergeItems names results context := by
  induction h generalizing context with
  | nil => rfl
  | cons hhead _ ih => rw [mergeItems, mergeItems, ih, hhead.context, hhead.scope]

theorem finishMap_moved (hM : Moves M) (hconfig : Configured engine engine') (group : Group)
    {body body' : Child} (hbody : MovedChild M body body') {results results' : List MapItemResult}
    (h : List.Forall₂ (MovedItem M) results results') :
    MovedRun M (engine.finishMap group body results) (engine'.finishMap group body' results') := by
  intro context t t' ht
  unfold finishMap
  rw [itemContexts_moved h]
  refine .bind_lift _ fun collected => ?_
  have hmerge : mergeItems body'.node.names results' = mergeItems body.node.names results := by
    funext context
    rw [mergeItems_moved _ h, hbody.node]
  dsimp only
  rw [show t'.mapIndices = t.mapIndices by rw [ht.rest], hconfig.setGroupControl, hmerge]
  exact closeGroup_moved hconfig group _ _ context (latest_moved hM (itemPositions_moved hM h)) _ ht

theorem mapOverflow_moved (hM : Moves M) (hconfig : Configured engine engine') (group : Group) :
    MovedRun M (engine.mapOverflow group) (engine'.mapOverflow group) := by
  intro context t t' ht
  unfold mapOverflow
  rw [show t'.mapIndices = t.mapIndices by rw [ht.rest], show t'.mode = t.mode by rw [ht.rest],
    hconfig.setGroupControl]
  exact (continueDecision_moved _ _).bind fun _ _ _ => .pure ⟨.continuing hM.zero, rfl⟩

theorem settleMap_moved (hM : Moves M) (hconfig : Configured engine engine') (group : Group)
    {body body' : Child} (hbody : MovedChild M body body') {results results' : List MapItemResult}
    (h : List.Forall₂ (MovedItem M) results results') :
    MovedRun M (engine.settleMap group body results) (engine'.settleMap group body' results') := by
  intro context t t' ht
  have hpending : (results'.any fun result => result.status == .pending) =
      results.any fun result => result.status == .pending := by
    induction h with
    | nil => rfl
    | cons hhead _ ih => rw [List.any_cons, List.any_cons, ih, hhead.status.pending_iff]
  unfold settleMap
  rw [hpending]
  split
  · exact .pure ⟨.pending, rfl⟩
  · exact finishMap_moved hM hconfig group hbody h context t t' ht

theorem evalMap_moved (hM : Moves M) (hconfig : Configured engine engine') (group : Group)
    (overItems : DataSelector) (maxItems : PositiveInteger) {body body' : Child}
    (hbody : MovedChild M body body') :
    MovedRun M (engine.evalMap group overItems maxItems body)
      (engine'.evalMap group overItems maxItems body') := by
  intro context t t' ht
  have hprobe := ht.withMode .probe
  unfold evalMap
  rw [show t'.item = t.item by rw [ht.rest]]
  refine .bind_lift _ fun selected => ?_
  cases selected.asArray with
  | none => exact .fail _
  | some items =>
    dsimp only
    split
    · exact mapOverflow_moved hM hconfig group context t t' ht
    · refine (evaluateMapItems_moved hbody.run context hprobe items).bind
        fun probes probes' hprobes => ?_
      have hearliest := earliestTerminal_moved hM hprobes 0
      revert hearliest
      generalize earliestTerminal 0 probes = earliest
      generalize earliestTerminal 0 probes' = earliest'
      intro hearliest
      cases hearliest with
      | @some found found' hfound =>
        obtain ⟨index, terminal⟩ := found
        obtain ⟨index', terminal'⟩ := found'
        obtain ⟨rfl, hterminal⟩ := hfound
        exact finishTerminalMapItem_moved hM group hbody items index hterminal context t t' ht
      | none =>
        dsimp only
        rw [show t'.mode = t.mode by rw [ht.rest]]
        cases t.mode with
        | probe => exact settleMap_moved hM hconfig group hbody hprobes context t t' ht
        | decide =>
          refine (evaluateMapItems_moved hbody.run context ht items).bind
            fun results results' hresults => ?_
          exact settleMap_moved hM hconfig group hbody hresults context t t' ht

/-! ## Nodes -/

theorem evalSucceed_moved (hM : Moves M) (node : SucceedNode) :
    MovedRun M (evalSucceed node) (evalSucceed node) := by
  intro context t t' ht
  obtain ⟨c', rfl, -⟩ := ht.eq_withCutoff
  exact .bind_lift _ fun output => .pure ⟨.terminal hM.zero _, rfl⟩

theorem evalFail_moved (hM : Moves M) (node : FailNode) :
    MovedRun M (evalFail node) (evalFail node) :=
  fun _ _ _ _ => .pure ⟨.terminal hM.zero _, rfl⟩

/-- **Evaluations see the order of positions only**: engines that find the same executions at
moved positions evaluate every node alike. -/
theorem eval_moved (hM : Moves M) (hengine : MovedEngine M engine engine') (node : GraphNode) :
    MovedRun M (engine.eval node) (engine'.eval node) := by
  have hconfig := hengine.toConfigured
  induction node using GraphNode.induct with
  | step node => exact evalExecutable_moved hM hengine (stepSpec node)
  | verifier node => exact evalExecutable_moved hM hengine (verifierSpec node)
  | seq group children ih =>
    rw [eval_seq, eval_seq]
    exact evalSequence_moved hM hconfig group (forall₂_map_of_mem ih)
  | choice group branches otherwise ihbranches ihotherwise =>
    rw [eval, eval, evalBranches_eq, evalBranches_eq, evalOption_eq, evalOption_eq]
    have hbranches : List.Forall₂ (MovedBranch M)
        (branches.map fun branch => (branch.1, engine.eval branch.2))
        (branches.map fun branch => (branch.1, engine'.eval branch.2)) :=
      forall₂_map_of_mem fun branch hbranch => ⟨rfl, ihbranches branch hbranch⟩
    refine evalChoice_moved hconfig group hbranches ?_
    cases otherwise with
    | none => exact .none
    | some node => exact .some (ihotherwise node rfl)
  | par group branches join ih =>
    intro context t t' ht
    have hbranches : List.Forall₂ (MovedChild M) (branches.map engine.child)
        (branches.map engine'.child) :=
      forall₂_map_of_mem fun branch hbranch => ⟨rfl, ih branch hbranch⟩
    rw [eval_par, eval_par]
    exact evalParallel_moved hM hconfig group join hbranches context _ _
      (ht.enterGroup group.name)
  | loop group body untilGuard maxIterations maxIterationsInput ih =>
    rw [eval_loop, eval_loop]
    exact evalLoop_moved hM hconfig group body ih untilGuard maxIterations
  | map group body overItems maxItems ih =>
    intro context t t' ht
    have hbody : MovedChild M (engine.child body) (engine'.child body) := ⟨rfl, ih⟩
    rw [eval_map, eval_map]
    exact evalMap_moved hM hconfig group overItems maxItems hbody context _ _
      (ht.enterGroup group.name)
  | succeed node => exact evalSucceed_moved hM node
  | fail node => exact evalFail_moved hM node

end Engine

end Zeroshot
