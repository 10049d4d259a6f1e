import Zeroshot.Reducer.Dispatches
import Zeroshot.Reducer.Reduction

set_option autoImplicit false

/-!
# Identities and the boundary

What performing a log does to the two identity counters, the boundary and the decisions. Requests
are answered in order by dispatches with consecutive execution identities (`replay_dispatches`), and
the boundary of the progress is that of every request (`replay_boundary`). A log without requests
and reports changes none of them (`replay_silent`).
-/

namespace Zeroshot

/-! ## Dispatch decisions -/

/-- The fields of a dispatch decision. -/
structure Dispatch where
  nodeInstance : NodeInstanceId
  execution : ExecutionId
  occurrence : StructuralOccurrence
  attempt : PositiveInteger
  iteration : Nat
  worker : WorkerRef
  input : Value
  deriving DecidableEq, Repr

def Decision.dispatch? : Decision → Option Dispatch
  | .dispatch nodeInstance execution occurrence attempt iteration worker input =>
    some ⟨nodeInstance, execution, occurrence, attempt, iteration, worker, input⟩
  | .voidLoser _ _ | .continues _ | .promote _ _ _ | .terminal _ => none

/-- The dispatches among some decisions, in order. -/
def dispatches (decisions : List Decision) : List Dispatch :=
  decisions.filterMap Decision.dispatch?

theorem dispatches_append (first second : List Decision) :
    dispatches (first ++ second) = dispatches first ++ dispatches second := List.filterMap_append

theorem dispatches_cons_none {d : Decision} (hd : d.dispatch? = none) (decisions : List Decision) :
    dispatches (d :: decisions) = dispatches decisions := List.filterMap_cons_none hd

theorem mem_dispatches {decisions : List Decision} {d : Dispatch} :
    d ∈ dispatches decisions ↔ .dispatch d.nodeInstance d.execution d.occurrence d.attempt
      d.iteration d.worker d.input ∈ decisions := by
  rw [dispatches, List.mem_filterMap]
  constructor
  · rintro ⟨decision, hmem, hd⟩
    cases decision with
    | dispatch =>
      cases hd
      exact hmem
    | voidLoser | continues | promote | terminal => cases hd
  · exact fun h => ⟨_, h, rfl⟩

theorem dispatch?_eq_none {d : Decision} (h : Progress.isDispatch d = false) :
    d.dispatch? = none := by
  cases d with
  | dispatch => cases h
  | voidLoser | continues | promote | terminal => rfl

/-- The dispatch answers the request with the execution identity. -/
structure Answers (request : DispatchRequest × Nat) (d : Dispatch) : Prop where
  execution : d.execution.get = request.2
  occurrence : d.occurrence = request.1.occurrence
  attempt : d.attempt = request.1.attempt
  nodeInstance : ∀ n, request.1.nodeInstance = some n → d.nodeInstance = n
  worker : d.worker = request.1.worker
  input : d.input = request.1.input

namespace Progress

/-! ## One effect -/

theorem identity_get {tag : IdentityTag} {value : Nat} {id : PositiveIdentity tag}
    (h : identity tag value = .ok id) : id.get = value := by
  unfold identity PositiveIdentity.new at h
  split at h
  · rename_i hnew
    split at hnew
    · cases hnew
      cases h
      rfl
    · cases hnew
  · cases h

theorem nextIdentity_eq {value next : Nat} (h : nextIdentity value = .ok next) :
    next = value + 1 := by
  unfold nextIdentity at h
  split at h
  · cases h
    rfl
  · cases h

/-- What allocating a node instance keeps. -/
theorem allocateNodeInstance_eq_ok {existing : Option NodeInstanceId} {progress next : Progress}
    {nodeInstance : NodeInstanceId}
    (h : allocateNodeInstance existing progress = .ok (nodeInstance, next)) :
    (∀ n, existing = some n → nodeInstance = n) ∧ next.boundary = progress.boundary ∧
      next.nextExecution = progress.nextExecution ∧ next.decisions = progress.decisions := by
  cases existing with
  | some n =>
    cases h
    exact ⟨fun _ hn => Option.some.inj hn, rfl, rfl, rfl⟩
  | none =>
    simp only [allocateNodeInstance, except_bind_eq_ok] at h
    obtain ⟨allocated, -, value, -, h⟩ := h
    cases h
    exact ⟨fun _ hn => (by cases hn), rfl, rfl, rfl⟩

theorem recordBoundary_eq_ok {boundary : ExecutionBoundary} {progress next : Progress}
    (h : recordBoundary boundary progress = .ok next) :
    next.boundary = some boundary ∧
      (∀ b, progress.boundary = some b → b = boundary) ∧
      next.nextExecution = progress.nextExecution ∧ next.decisions = progress.decisions := by
  unfold recordBoundary at h
  split at h
  · rename_i current hcurrent
    split at h
    · rename_i heq
      cases h
      refine ⟨heq ▸ hcurrent, fun b hb => ?_, rfl, rfl⟩
      rw [hcurrent] at hb
      cases hb
      exact heq
    · cases h
  · rename_i hnone
    cases h
    refine ⟨rfl, fun b hb => ?_, rfl, rfl⟩
    rw [hnone] at hb
    cases hb

/-- **One dispatch**: it takes the next execution identity and the boundary of the request. -/
theorem dispatch_eq_ok {request : DispatchRequest} {progress next : Progress}
    (h : dispatch request progress = .ok next) :
    next.boundary = some request.boundary ∧
      (∀ b, progress.boundary = some b → b = request.boundary) ∧
      next.nextExecution = progress.nextExecution + 1 ∧
      ∃ d, Answers (request, progress.nextExecution) d ∧
        dispatches next.decisions = dispatches progress.decisions ++ [d] := by
  simp only [dispatch, allocateExecution, except_bind_eq_ok] at h
  obtain ⟨⟨nodeInstance, first⟩, hfirst, second, hsecond, ⟨execution, third⟩, hthird, h⟩ := h
  obtain ⟨allocated, hallocated, value, hvalue, hpair⟩ := hthird
  cases hpair
  cases h
  obtain ⟨hinstance, hboundary, hnext, hdecisions⟩ := allocateNodeInstance_eq_ok hfirst
  obtain ⟨hrecorded, hsame, hnext', hdecisions'⟩ := recordBoundary_eq_ok hsecond
  have hcounter : second.nextExecution = progress.nextExecution := hnext'.trans hnext
  refine ⟨hrecorded, fun b hb => hsame b (hboundary.trans hb), ?_, ⟨nodeInstance, execution,
    request.occurrence, request.attempt, request.loopIterations.getLast?.getD 0, request.worker,
    request.input⟩, ⟨?_, rfl, rfl, hinstance, rfl, rfl⟩, ?_⟩
  · exact (nextIdentity_eq hvalue).trans (by rw [hcounter])
  · exact (identity_get hallocated).trans hcounter
  · change dispatches (second.decisions ++ [_]) = _
    rw [dispatches_append, hdecisions', hdecisions]
    rfl

/-- Two progresses that differ at most in what was consumed and voided. -/
structure Unmoved (progress next : Progress) : Prop where
  boundary : next.boundary = progress.boundary
  nextNodeInstance : next.nextNodeInstance = progress.nextNodeInstance
  nextExecution : next.nextExecution = progress.nextExecution
  decisions : next.decisions.filter (fun d => !isVoid d) =
    progress.decisions.filter (fun d => !isVoid d)

theorem Unmoved.refl (progress : Progress) : Unmoved progress progress := ⟨rfl, rfl, rfl, rfl⟩

theorem Unmoved.trans {a b c : Progress} (h : Unmoved a b) (h' : Unmoved b c) : Unmoved a c :=
  ⟨h'.boundary.trans h.boundary, h'.nextNodeInstance.trans h.nextNodeInstance,
    h'.nextExecution.trans h.nextExecution, h'.decisions.trans h.decisions⟩

/-- Dispatches are not voids. -/
theorem dispatches_filter_isVoid (decisions : List Decision) :
    dispatches (decisions.filter fun d => !isVoid d) = dispatches decisions := by
  induction decisions with
  | nil => rfl
  | cons d decisions ih =>
    cases d with
    | dispatch => exact congrArg (List.cons _) ih
    | voidLoser | continues | promote | terminal => exact ih

theorem Unmoved.dispatches {progress next : Progress} (h : Unmoved progress next) :
    dispatches next.decisions = dispatches progress.decisions := by
  rw [← dispatches_filter_isVoid, h.decisions, dispatches_filter_isVoid]

theorem voidLoser_unmoved (scope : VoidScope) (e : DurableExecution) (progress : Progress) :
    Unmoved progress (voidLoser scope e progress) := by
  unfold voidLoser pushVoidDecision
  dsimp only
  split
  · split
    · exact ⟨rfl, rfl, rfl, rfl⟩
    · refine ⟨rfl, rfl, rfl, ?_⟩
      change (progress.decisions ++ [_]).filter _ = _
      rw [List.filter_append]
      exact List.append_nil _
  · exact ⟨rfl, rfl, rfl, rfl⟩

theorem voidLosers_unmoved (executions : List DurableExecution) (scope : VoidScope)
    (progress : Progress) : Unmoved progress (voidLosers executions scope progress) := by
  unfold voidLosers
  generalize (executions.filter (isLoser progress scope)).insertionSort loserBefore = losers
  induction losers generalizing progress with
  | nil => exact .refl progress
  | cons e losers ih => exact (voidLoser_unmoved scope e progress).trans (ih _)

/-- An effect that neither asks for a dispatch nor reports a decision. -/
theorem apply_silent (executions : List DurableExecution) {effect : Effect}
    (h : Engine.Silent effect) (progress : Progress) :
    ∃ next, apply executions effect progress = .ok next ∧ Unmoved progress next := by
  cases effect with
  | visit visit => exact ⟨_, rfl, rfl, rfl, rfl, rfl⟩
  | void scope => exact ⟨_, rfl, voidLosers_unmoved executions scope progress⟩
  | joined record => exact ⟨_, rfl, .refl progress⟩
  | itemTerminated record => exact ⟨_, rfl, .refl progress⟩
  | dispatch request => exact h.elim
  | decision d => exact h.elim

theorem unmoved_of_apply {executions : List DurableExecution} {effect : Effect}
    (hsilent : Engine.Silent effect) {progress next : Progress}
    (h : apply executions effect progress = .ok next) : Unmoved progress next := by
  obtain ⟨next', hnext', hunmoved⟩ := apply_silent executions hsilent progress
  rw [h] at hnext'
  cases hnext'
  exact hunmoved

/-- **Silent logs**: no identity, no boundary, and no decision other than voids. -/
theorem replay_silent (executions : List DurableExecution) {log : List Effect}
    (h : ∀ effect ∈ log, Engine.Silent effect) (progress : Progress) :
    ∃ next, replay executions log progress = .ok next ∧ Unmoved progress next := by
  induction log generalizing progress with
  | nil => exact ⟨progress, rfl, .refl progress⟩
  | cons effect log ih =>
    rw [List.forall_mem_cons] at h
    obtain ⟨middle, hmiddle, hfirst⟩ := apply_silent executions h.1 progress
    obtain ⟨next, hnext, hrest⟩ := ih h.2 middle
    refine ⟨next, ?_, hfirst.trans hrest⟩
    rw [replay, hmiddle]
    exact hnext

/-! ## Logs -/

theorem requests_cons_of_none {effect : Effect} (h : ∀ r, effect ≠ .dispatch r)
    (log : List Effect) : requests (effect :: log) = requests log := by
  cases effect with
  | dispatch r => exact absurd rfl (h r)
  | visit | void | joined | itemTerminated | decision => rfl

/-- An effect other than a dispatch, whose decision is a report. -/
theorem apply_undispatched {executions : List DurableExecution} {effect : Effect}
    {progress next : Progress} (hno : ∀ r, effect ≠ .dispatch r)
    (hreports : ∀ d, effect = .decision d → isDispatch d = false)
    (h : apply executions effect progress = .ok next) :
    next.boundary = progress.boundary ∧ next.nextExecution = progress.nextExecution ∧
      dispatches next.decisions = dispatches progress.decisions := by
  cases effect with
  | dispatch r => exact absurd rfl (hno r)
  | decision d =>
    cases h
    refine ⟨rfl, rfl, ?_⟩
    change dispatches (progress.decisions ++ [d]) = _
    rw [dispatches_append, dispatches_cons_none (dispatch?_eq_none (hreports d rfl))]
    exact List.append_nil _
  | visit | void | joined | itemTerminated =>
    have hunmoved := unmoved_of_apply (by trivial) h
    exact ⟨hunmoved.boundary, hunmoved.nextExecution, hunmoved.dispatches⟩

/-- What performing a log answers. -/
structure Replayed (log : List Effect) (progress next : Progress) (new : List Dispatch) : Prop where
  decisions : dispatches next.decisions = dispatches progress.decisions ++ new
  answers : List.Forall₂ Answers ((requests log).zipIdx progress.nextExecution) new
  kept : ∀ b, progress.boundary = some b → next.boundary = some b
  boundary : ∀ r ∈ requests log, next.boundary = some r.boundary

/-- **Performed logs**: the requests are answered in order, with consecutive identities and one
boundary. -/
theorem replay_dispatches {executions : List DurableExecution} {log : List Effect}
    {progress next : Progress}
    (hreports : ∀ d, Effect.decision d ∈ log → isDispatch d = false)
    (h : replay executions log progress = .ok next) : ∃ new, Replayed log progress next new := by
  induction log generalizing progress with
  | nil =>
    cases h
    exact ⟨[], (List.append_nil _).symm, .nil, fun _ hb => hb, fun _ hr => (by cases hr)⟩
  | cons effect log ih =>
    simp only [replay, except_bind_eq_ok] at h
    obtain ⟨middle, hmiddle, hrest⟩ := h
    obtain ⟨new, hnew⟩ := ih (fun d hd => hreports d (List.mem_cons_of_mem _ hd)) hrest
    by_cases hdispatch : ∃ r, effect = .dispatch r
    · obtain ⟨r, rfl⟩ := hdispatch
      obtain ⟨hboundary, hsame, hcounter, d, hanswers, hdecisions⟩ := dispatch_eq_ok hmiddle
      refine ⟨d :: new, ?_, ?_, fun b hb => ?_, ?_⟩
      · rw [hnew.decisions, hdecisions, List.append_assoc, List.singleton_append]
      · have hlater := hnew.answers
        rw [hcounter] at hlater
        exact .cons hanswers hlater
      · rw [hsame b hb]
        exact hnew.kept _ hboundary
      · intro r' hr'
        rcases List.mem_cons.mp hr' with rfl | hr'
        · exact hnew.kept _ hboundary
        · exact hnew.boundary r' hr'
    · have hno : ∀ r, effect ≠ .dispatch r := fun r hr => hdispatch ⟨r, hr⟩
      obtain ⟨hboundary, hcounter, hdecisions⟩ := apply_undispatched hno
        (fun d hd => hreports d (hd ▸ List.mem_cons_self)) hmiddle
      refine ⟨new, hnew.decisions.trans (by rw [hdecisions]), ?_, fun b hb => ?_, ?_⟩
      · rw [requests_cons_of_none hno, ← hcounter]
        exact hnew.answers
      · exact hnew.kept b (hboundary.trans hb)
      · rw [requests_cons_of_none hno]
        exact hnew.boundary

/-- The boundary after a log came from the start or from a request of the log. -/
theorem replay_boundary {executions : List DurableExecution} {log : List Effect}
    {progress next : Progress} (h : replay executions log progress = .ok next)
    {b : ExecutionBoundary} (hb : next.boundary = some b) :
    progress.boundary = some b ∨ ∃ r ∈ requests log, r.boundary = b := by
  induction log generalizing progress with
  | nil =>
    cases h
    exact .inl hb
  | cons effect log ih =>
    simp only [replay, except_bind_eq_ok] at h
    obtain ⟨middle, hmiddle, hrest⟩ := h
    rcases ih hrest with hbefore | ⟨r, hr, heq⟩
    · cases effect with
      | dispatch r =>
        obtain ⟨hboundary, -⟩ := dispatch_eq_ok hmiddle
        rw [hboundary] at hbefore
        exact .inr ⟨r, List.mem_cons_self, Option.some.inj hbefore⟩
      | decision d =>
        cases hmiddle
        exact .inl hbefore
      | visit | void | joined | itemTerminated =>
        have hunmoved := unmoved_of_apply (by trivial) hmiddle
        exact .inl (hunmoved.boundary ▸ hbefore)
    · refine .inr ⟨r, ?_, heq⟩
      exact mem_requests.mpr (List.mem_cons_of_mem _ (mem_requests.mp hr))

/-! ## Canonical decisions -/

theorem uniqueVoids_dispatches (seen : List ExecutionId) (decisions : List Decision) :
    dispatches (uniqueVoids seen decisions) = dispatches decisions := by
  induction decisions generalizing seen with
  | nil => rfl
  | cons d decisions ih =>
    cases d with
    | voidLoser execution reason =>
      rw [uniqueVoids]
      split
      · exact ih seen
      · exact ih _
    | dispatch => exact congrArg (List.cons _) (ih seen)
    | continues | promote | terminal => exact ih seen

theorem fillSlots_dispatches (decisions : List Decision) {sorted : List Decision}
    (hsorted : ∀ d ∈ sorted, isVoid d = true) :
    dispatches (fillSlots decisions sorted) = dispatches decisions := by
  have hnone : ∀ {d : Decision}, isVoid d = true → d.dispatch? = none := by
    intro d hd
    cases d with
    | voidLoser => rfl
    | dispatch | continues | promote | terminal => cases hd
  induction decisions generalizing sorted with
  | nil => rfl
  | cons d decisions ih =>
    by_cases hvoid : isVoid d = true
    · rw [fillSlots.eq_def]
      dsimp only
      rw [if_pos hvoid]
      cases sorted with
      | nil =>
        rw [dispatches_cons_none (hnone hvoid), dispatches_cons_none (hnone hvoid)]
        exact ih hsorted
      | cons first rest =>
        rw [List.forall_mem_cons] at hsorted
        rw [dispatches_cons_none (hnone hsorted.1), dispatches_cons_none (hnone hvoid)]
        exact ih hsorted.2
    · rw [fillSlots.eq_def]
      dsimp only
      rw [if_neg hvoid, ← List.singleton_append, dispatches_append, ih hsorted, ← dispatches_append]
      rfl

theorem canonicalize_dispatches (executions : List DurableExecution) (decisions : List Decision) :
    dispatches (canonicalizeVoidDecisions executions decisions) = dispatches decisions := by
  unfold canonicalizeVoidDecisions
  dsimp only
  rw [fillSlots_dispatches _ fun d hd => ?_, uniqueVoids_dispatches]
  rw [List.mem_insertionSort] at hd
  exact List.of_mem_filter hd

/-- The dispatches of a finished reduction. -/
theorem finishReduction_dispatches (executions : List DurableExecution) (status : Status)
    (progress : Progress) :
    dispatches (finishReduction executions status progress).decisions =
      dispatches progress.decisions := by
  have hterminal : dispatches (status.projection?.map Decision.terminal).toList = [] := by
    cases status.projection? with
    | none => rfl
    | some projection => rfl
  change dispatches (canonicalizeVoidDecisions executions progress.decisions ++ _) = _
  rw [dispatches_append, hterminal, List.append_nil, canonicalize_dispatches]

end Progress

end Zeroshot
