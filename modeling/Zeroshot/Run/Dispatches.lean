import Mathlib.Data.List.Chain
import Zeroshot.Reducer.Allocation
import Zeroshot.Run.Invariants

set_option autoImplicit false

/-!
# Dispatch discipline

An executable is dispatched for the first time in a visit only when the visit before it is
concluded: settled, and not by a crash that is still to be retried. Reachable histories keep this
(`Reachable.closedVisits`), so the last execution of an occurrence decides what may be dispatched
for it: nothing while it is active, a retry after a crash below the ceiling, and a new visit once it
is concluded (`Justified`). `dispatch_discipline` collects what the dispatches of one reduction
satisfy.
-/

namespace Zeroshot

open Logged

/-! ## Visits of an occurrence -/

/-- The first attempts among some executions. -/
def firstAttempts (executions : List DurableExecution) : Nat :=
  executions.countP fun e => e.attempt.get = 1

namespace Engine

theorem nativeVisitExecutions_cons (number visit : Nat) (e : DurableExecution)
    (executions : List DurableExecution) :
    nativeVisitExecutions number visit (e :: executions) =
      if (if e.attempt.get = 1 then visit + 1 else visit) = number then
        e :: nativeVisitExecutions number (if e.attempt.get = 1 then visit + 1 else visit)
          executions
      else nativeVisitExecutions number (if e.attempt.get = 1 then visit + 1 else visit)
        executions := rfl

theorem firstAttempts_cons (e : DurableExecution) (executions : List DurableExecution)
    (visit : Nat) :
    visit + firstAttempts (e :: executions) =
      (if e.attempt.get = 1 then visit + 1 else visit) + firstAttempts executions := by
  rw [firstAttempts, List.countP_cons, ← firstAttempts]
  by_cases hfirst : e.attempt.get = 1
  · rw [if_pos hfirst, if_pos (decide_eq_true hfirst)]
    omega
  · rw [if_neg hfirst, if_neg (by simpa using hfirst)]
    omega

/-- The last visit ends with the last execution. -/
theorem lastVisit_getLast? (executions : List DurableExecution) (visit : Nat) :
    (nativeVisitExecutions (visit + firstAttempts executions) visit executions).getLast? =
      executions.getLast? := by
  induction executions generalizing visit with
  | nil => rfl
  | cons e executions ih =>
    rw [firstAttempts_cons, nativeVisitExecutions_cons]
    generalize (if e.attempt.get = 1 then visit + 1 else visit) = entered
    have hlast := ih entered
    cases executions with
    | nil => simp [firstAttempts, nativeVisitExecutions]
    | cons next executions =>
      rw [List.getLast?_cons_cons, ← hlast]
      split
      · rw [List.getLast?_cons, hlast, List.getLast?_cons]
        rfl
      · rfl

/-- Every visit up to the last has an execution. -/
theorem nativeVisitExecutions_ne_nil {executions : List DurableExecution} {number visit : Nat}
    (habove : visit < number) (hle : number ≤ visit + firstAttempts executions) :
    nativeVisitExecutions number visit executions ≠ [] := by
  induction executions generalizing visit with
  | nil =>
    rw [firstAttempts, List.countP_nil] at hle
    omega
  | cons e executions ih =>
    rw [firstAttempts_cons] at hle
    rw [nativeVisitExecutions_cons]
    by_cases hfirst : e.attempt.get = 1
    · simp only [if_pos hfirst] at hle ⊢
      by_cases hnumber : visit + 1 = number
      · rw [if_pos hnumber]
        exact List.cons_ne_nil _ _
      · rw [if_neg hnumber]
        exact ih (by omega) hle
    · simp only [if_neg hfirst] at hle ⊢
      rw [if_neg (by omega)]
      exact ih habove hle

/-- Where every first attempt follows an execution with `C`, one without it that ends its visit is
the last of all. -/
theorem getLast?_of_open {C : DurableExecution → Prop} {executions : List DurableExecution}
    {number visit : Nat} {e : DurableExecution}
    (hchain : executions.IsChain fun a b => b.attempt.get = 1 → C a)
    (hlast : (nativeVisitExecutions number visit executions).getLast? = some e) (hopen : ¬ C e) :
    executions.getLast? = some e := by
  induction executions generalizing visit with
  | nil => exact hlast
  | cons a executions ih =>
    rw [nativeVisitExecutions_cons] at hlast
    generalize hentered : (if a.attempt.get = 1 then visit + 1 else visit) = entered at hlast
    cases hrest : nativeVisitExecutions number entered executions with
    | nil =>
      rw [hrest] at hlast
      split at hlast
      case isFalse => cases hlast
      rename_i hnumber
      cases hlast
      cases executions with
      | nil => rfl
      | cons b executions =>
        -- The next execution is of the same visit, or opens one after `e`.
        rw [List.isChain_cons_cons] at hchain
        by_cases hfirst : b.attempt.get = 1
        · exact absurd (hchain.1 hfirst) hopen
        · rw [nativeVisitExecutions_cons, if_neg hfirst, if_pos hnumber] at hrest
          cases hrest
    | cons b rest =>
      have hlater : (nativeVisitExecutions number entered executions).getLast? = some e := by
        rw [hrest] at hlast ⊢
        split at hlast
        · rwa [List.getLast?_cons_cons] at hlast
        · exact hlast
      have htail := ih hchain.tail hlater
      cases executions with
      | nil => cases htail
      | cons next executions => rwa [List.getLast?_cons_cons]

end Engine

/-! ## Concluded executions -/

/-- Settled, and not by a crash that is still to be retried. -/
def Concluded (spec : Engine.ExecutableSpec) (e : DurableExecution) : Prop :=
  e.isSettled = true ∧ ¬ (e.isCrashed = true ∧ e.attempt.get < spec.attemptCeiling.get)

/-- Every visit of an executable but the last is concluded. -/
def ClosedVisits (root : GraphNode) (executions : List DurableExecution) : Prop :=
  ∀ leaf ∈ root.descendants, ∀ spec, leaf.spec? = some spec → ∀ mapIndices,
    (matching executions ⟨spec.name, mapIndices⟩).IsChain fun a b =>
      b.attempt.get = 1 → Concluded spec a

theorem spec_name {leaf : GraphNode} {spec : Engine.ExecutableSpec}
    (h : leaf.spec? = some spec) : leaf.name = spec.name := by
  cases leaf with
  | step node =>
    cases h
    rfl
  | verifier node =>
    cases h
    rfl
  | seq | choice | par | loop | map | succeed | fail => cases h

/-- One node, one executable. -/
theorem GraphNode.UniqueNames.spec_eq {root : GraphNode} (hunique : root.UniqueNames)
    {leaf leaf' : GraphNode} (hleaf : leaf ∈ root.descendants) (hleaf' : leaf' ∈ root.descendants)
    {spec spec' : Engine.ExecutableSpec} (hspec : leaf.spec? = some spec)
    (hspec' : leaf'.spec? = some spec') (hname : spec.name = spec'.name) : spec = spec' := by
  have heq : leaf = leaf' := by
    refine List.inj_on_of_nodup_map hunique hleaf hleaf' ?_
    rw [spec_name hspec, spec_name hspec', hname]
  rw [heq, hspec'] at hspec
  exact (Option.some.inj hspec).symm

/-- Matching executions of a well-formed history are in dispatch order. -/
theorem Timely.sortByDispatch_matching {executions : List DurableExecution}
    (h : Timely executions) (occurrence : StructuralOccurrence) :
    sortByDispatch (matching executions occurrence) = matching executions occurrence := by
  refine List.Pairwise.insertionSort_eq ?_
  exact (h.inOrder.filter _).imp fun hlt => hlt.le

/-! ## Lineage -/

theorem windows_isChain {α : Type} {r : α → α → Bool} {l : List α} (h : windows r l = true) :
    l.IsChain fun a b => r a b = true := by
  induction l with
  | nil => exact .nil
  | cons a l ih =>
    cases l with
    | nil => exact .singleton a
    | cons b l =>
      rw [windows, Bool.and_eq_true] at h
      exact .cons_cons h.1 (ih h.2)

theorem attemptFollows_final {previous current : DurableExecution}
    (h : attemptFollows previous current = true) : previous.isActive = false := by
  have hfinal : followsFinalizedVisit previous current = true := by
    unfold attemptFollows at h
    split at h
    · exact h
    · unfold followsFailedAttempt at h
      simp only [Bool.and_eq_true] at h
      exact h.1.2
  unfold followsFinalizedVisit DurableExecution.finalPosition? at hfinal
  unfold DurableExecution.isActive
  cases hstate : previous.state with
  | active =>
    rw [hstate] at hfinal
    cases hfinal
  | settled | voided => rfl

/-- In a chain of final executions only the last can be active. -/
theorem last_of_active {l : List DurableExecution}
    (hchain : l.IsChain fun a b => attemptFollows a b = true) {e : DurableExecution} (he : e ∈ l)
    (hactive : e.isActive = true) : l.getLast? = some e := by
  induction l with
  | nil => cases he
  | cons a l ih =>
    cases l with
    | nil => rw [List.mem_singleton.mp he, List.getLast?_singleton]
    | cons b l =>
      rw [List.isChain_cons_cons] at hchain
      rw [List.getLast?_cons_cons]
      rcases List.mem_cons.mp he with rfl | he
      · rw [attemptFollows_final hchain.1] at hactive
        cases hactive
      · exact ih hchain.2 he

/-- What a validated history says about one occurrence. -/
structure Lineage (l : List DurableExecution) : Prop where
  starts : ∀ first ∈ l.head?, first.attempt.get = 1
  follows : l.IsChain fun a b => attemptFollows a b = true

theorem lineage_of_validated {executions : List DurableExecution} (htimely : Timely executions)
    (h : validateHistoryForMode executions .nativeV2 = true) (occurrence : StructuralOccurrence) :
    Lineage (matching executions occurrence) := by
  cases hmatching : matching executions occurrence with
  | nil => exact ⟨fun _ hfirst => (by cases hfirst), .nil⟩
  | cons first rest =>
    have hfirst : first ∈ matching executions occurrence := by
      rw [hmatching]
      exact List.mem_cons_self
    have hmember := List.mem_filter.mp hfirst
    have hvalid : nativeAttemptLineageValid executions = true := by
      unfold validateHistoryForMode at h
      rw [Bool.and_eq_true] at h
      exact h.2
    have hone := List.all_eq_true.mp hvalid first hmember.1
    have hoccurrence : first.occurrence = occurrence := of_decide_eq_true hmember.2
    rw [hoccurrence, htimely.sortByDispatch_matching, hmatching, occurrenceLineageValid,
      Bool.and_eq_true] at hone
    refine ⟨fun e he => ?_, windows_isChain hone.2⟩
    cases he
    exact of_decide_eq_true hone.1

/-! ## Justified requests -/

/-- What the last execution of the occurrence is when the dispatch is asked for. -/
inductive Justified (root : GraphNode) (executions : List DurableExecution)
    (r : DispatchRequest) : Prop
  | visit {leaf : GraphNode} {spec : Engine.ExecutableSpec} (mem : leaf ∈ root.descendants)
      (isLeaf : leaf.spec? = some spec) (name : spec.name = r.occurrence.node)
      (attempt : r.attempt = PositiveInteger.one)
      (nodeInstance : r.nodeInstance =
        (matching executions r.occurrence).getLast?.map DurableExecution.nodeInstance)
      (concluded : ∀ e, (matching executions r.occurrence).getLast? = some e → Concluded spec e)
  | retry {leaf : GraphNode} {spec : Engine.ExecutableSpec} {e : DurableExecution}
      (mem : leaf ∈ root.descendants) (isLeaf : leaf.spec? = some spec)
      (name : spec.name = r.occurrence.node)
      (last : (matching executions r.occurrence).getLast? = some e)
      (crashed : e.isCrashed = true) (attempt : r.attempt.get = e.attempt.get + 1)
      (ceiling : r.attempt.get ≤ spec.attemptCeiling.get)
      (nodeInstance : r.nodeInstance = some e.nodeInstance)

theorem isSettled_of_isCrashed {e : DurableExecution} (h : e.isCrashed = true) :
    e.isSettled = true := by
  unfold DurableExecution.isCrashed at h
  unfold DurableExecution.isSettled
  cases hstate : e.state with
  | settled => rfl
  | active | voided =>
    rw [hstate] at h
    cases h

theorem not_isActive_of_isSettled {e : DurableExecution} (h : e.isSettled = true) :
    e.isActive = false := by
  unfold DurableExecution.isSettled at h
  unfold DurableExecution.isActive
  cases hstate : e.state with
  | settled | voided => rfl
  | active =>
    rw [hstate] at h
    cases h

/-- No execution of the occurrence is active. -/
theorem Justified.idle {root : GraphNode} {executions : List DurableExecution}
    {r : DispatchRequest} (h : Justified root executions r)
    (hlineage : Lineage (matching executions r.occurrence)) :
    ∀ e ∈ matching executions r.occurrence, e.isActive = false := by
  intro e he
  by_contra hactive
  have hlast := last_of_active hlineage.follows he (Bool.eq_true_of_not_eq_false hactive)
  refine hactive (not_isActive_of_isSettled ?_)
  cases h with
  | visit mem isLeaf name attempt nodeInstance concluded => exact (concluded e hlast).1
  | retry mem isLeaf name last crashed =>
    rw [hlast] at last
    cases last
    exact isSettled_of_isCrashed crashed

namespace Engine

variable {engine : Engine} {root : GraphNode}

/-- The visit ended with a concluded execution. -/
def Ended (engine : Engine) (root : GraphNode) (occurrence : StructuralOccurrence)
    (number : Nat) : Prop :=
  ∃ leaf ∈ root.descendants, ∃ spec, leaf.spec? = some spec ∧ spec.name = occurrence.node ∧
    ∃ e, (engine.visitExecutions occurrence number).getLast? = some e ∧ Concluded spec e

theorem concluded_of_leafOutcome (hmode : engine.executionMode = .nativeV2) {spec : ExecutableSpec}
    {mapIndices : List Nat} {number : Nat} {cutoff : HistoryPosition}
    {outcome : HistoryPosition × WorkerOutcome}
    (h : engine.leafOutcome spec mapIndices number cutoff = some outcome) :
    ∃ e, (engine.visitExecutions ⟨spec.name, mapIndices⟩ number).getLast? = some e ∧
      Concluded spec e := by
  unfold leafOutcome at h
  rw [Option.bind_eq_some_iff] at h
  obtain ⟨e, hlast, h⟩ := h
  obtain ⟨hvisible, hretried⟩ := Option.filter_eq_some_iff.mp h
  obtain ⟨position, result⟩ := outcome
  refine ⟨e, hlast, ?_⟩
  unfold visibleOutcome at hvisible
  split at hvisible
  · rename_i p o hstate
    split at hvisible
    · cases hvisible
      have hsettled : e.isSettled = true := by
        rw [DurableExecution.isSettled, hstate]
      refine ⟨hsettled, fun ⟨hcrashed, hbelow⟩ => ?_⟩
      rw [DurableExecution.isCrashed, hstate] at hcrashed
      split at hcrashed
      · rename_i heq
        cases heq
        simp [isRetried, hmode, hbelow] at hretried
      · cases hcrashed
    · cases hvisible
  · cases hvisible
  · cases hvisible

/-- The last execution of an occurrence when a new visit of it is opened. -/
theorem Source.concluded {r : DispatchRequest} (source : Source engine (engine.Ended root) root r)
    (hunique : root.UniqueNames) (htimely : Timely engine.executions)
    (hlineage : ∀ occurrence, Lineage (matching engine.executions occurrence))
    (hempty : engine.visitExecutions ⟨source.spec.name, source.t.mapIndices⟩
      (source.context.visits ⟨source.spec.name, source.t.mapIndices⟩ + 1) = [])
    {e : DurableExecution} (hlast : (matching engine.executions
      ⟨source.spec.name, source.t.mapIndices⟩).getLast? = some e) : Concluded source.spec e := by
  generalize hoccurrence : (⟨source.spec.name, source.t.mapIndices⟩ : StructuralOccurrence) =
    occurrence at hempty hlast
  have hsorted := htimely.sortByDispatch_matching occurrence
  unfold visitExecutions at hempty
  rw [hsorted] at hempty
  generalize hvisits : firstAttempts (matching engine.executions occurrence) = visits
  have hpositive : 1 ≤ visits := by
    cases hmatching : matching engine.executions occurrence with
    | nil =>
      rw [hmatching] at hlast
      cases hlast
    | cons first rest =>
      have hfirst : first.attempt.get = 1 := (hlineage occurrence).starts first (by
        rw [hmatching]
        rfl)
      have hcount := firstAttempts_cons first rest 0
      rw [if_pos hfirst, ← hmatching, hvisits] at hcount
      omega
  have hcounted : visits ≤ source.context.visits occurrence := by
    by_contra hnot
    refine nativeVisitExecutions_ne_nil (Nat.succ_pos _) ?_ hempty
    omega
  obtain ⟨leaf, hleaf, spec, hspec, hname, e', hlast', hconcluded⟩ :=
    source.marks occurrence visits hpositive hcounted
  have heq : e' = e := by
    have hvisit := lastVisit_getLast? (matching engine.executions occurrence) 0
    rw [Nat.zero_add, hvisits, hlast] at hvisit
    unfold visitExecutions at hlast'
    rw [hsorted, hvisit] at hlast'
    exact (Option.some.inj hlast').symm
  have hsame : spec = source.spec := by
    refine hunique.spec_eq hleaf source.mem hspec source.isLeaf ?_
    rw [hname, ← hoccurrence]
  rw [← heq, ← hsame]
  exact hconcluded

/-- **A dispatch that is asked for is justified.** -/
theorem Source.justified {r : DispatchRequest} (source : Source engine (engine.Ended root) root r)
    (hunique : root.UniqueNames) (htimely : Timely engine.executions)
    (hclosed : ClosedVisits root engine.executions)
    (hlineage : ∀ occurrence, Lineage (matching engine.executions occurrence)) :
    Justified root engine.executions r := by
  obtain ⟨leaf, spec, context, t, input, mem, isLeaf, marks, asks⟩ := source
  have hsorted := htimely.sortByDispatch_matching ⟨spec.name, t.mapIndices⟩
  cases asks with
  | missing hempty hmay =>
    refine .visit mem isLeaf rfl rfl ?_ fun e hlast => ?_
    · rw [hsorted]
    · exact Source.concluded ⟨leaf, spec, context, t, input, mem, isLeaf, marks,
        .missing hempty hmay⟩ hunique htimely hlineage hempty hlast
  | retry e attempt hlast hcrashed hattempt hceiling hmay =>
    have hoccurrence : e.occurrence = ⟨spec.name, t.mapIndices⟩ :=
      (mem_of_mem_visitExecutions (List.mem_of_getLast? hlast)).2
    refine .retry mem isLeaf (by rw [hoccurrence]) ?_ hcrashed hattempt hceiling rfl
    unfold visitExecutions at hlast
    rw [hsorted] at hlast
    rw [hoccurrence]
    refine getLast?_of_open (hclosed leaf mem spec isLeaf _) hlast ?_
    rintro ⟨-, hnot⟩
    exact hnot ⟨hcrashed, by omega⟩

end Engine

/-! ## Answers of a reduction -/

theorem answers_occurrences {rs : List DispatchRequest} {n : Nat} {ds : List Dispatch}
    (h : List.Forall₂ Answers (rs.zipIdx n) ds) :
    ds.map Dispatch.occurrence = rs.map DispatchRequest.occurrence := by
  induction rs generalizing n ds with
  | nil =>
    cases h
    rfl
  | cons r rs ih =>
    cases h with
    | cons hanswers hrest => rw [List.map_cons, List.map_cons, hanswers.occurrence, ih hrest]

theorem answers_executions {rs : List DispatchRequest} {n : Nat} {ds : List Dispatch}
    (h : List.Forall₂ Answers (rs.zipIdx n) ds) :
    ds.map (fun d => d.execution.get) = List.range' n ds.length := by
  induction rs generalizing n ds with
  | nil =>
    cases h
    rfl
  | cons r rs ih =>
    cases h with
    | cons hanswers hrest =>
      rw [List.map_cons, List.length_cons, List.range'_succ, hanswers.execution, ih hrest]

theorem mem_of_answers {rs : List DispatchRequest} {n : Nat} {ds : List Dispatch}
    (h : List.Forall₂ Answers (rs.zipIdx n) ds) {d : Dispatch} (hd : d ∈ ds) :
    ∃ r ∈ rs, ∃ k, Answers (r, k) d := by
  obtain ⟨⟨r, k⟩, hmem, hanswers⟩ := forall₂_mem_right h hd
  exact ⟨r, List.fst_mem_of_mem_zipIdx hmem, k, hanswers⟩

/-- The evaluation behind a reduction: its requests, which the dispatches answer. -/
structure Performed (root : GraphNode) (initialInput : Value) (executions : List DurableExecution)
    (reduction : Reduction) (engine : Engine) (log : List Effect) : Prop where
  built : Engine.new (runInput initialInput executions) root .nativeV2 = .ok engine
  walk : ∃ result, (engine.walkRoot root initialInput).Returns result log
  answers : List.Forall₂ Answers ((requests log).zipIdx (nextExecution executions))
    (dispatches reduction.decisions)
  boundary : ∀ r ∈ requests log, reduction.boundary = some r.boundary

section

variable {gate : DispatchGate} {root : GraphNode} {initialInput : Value}
  {executions executions' : List DurableExecution} {reduction : Reduction} {engine : Engine}
  {log : List Effect}

theorem reduceRun_performed (h : reduceRun root initialInput executions = .ok reduction) :
    ∃ engine log, Performed root initialInput executions reduction engine log := by
  obtain ⟨engine, status, c, log, progress, hengine, hwalk, hreplay, -, rfl⟩ := reduce_eq_ok h
  have hmode : engine.executionMode = .nativeV2 := (Engine.new_eq_ok hengine).2.2.2.1
  have hreports : ∀ d, Effect.decision d ∈ log → Progress.isDispatch d = false := by
    intro d hd
    have hreport : d.isReport = true := Engine.eval_effects hmode root hwalk _ hd
    cases d with
    | dispatch => cases hreport
    | voidLoser | continues | promote | terminal => rfl
  obtain ⟨new, hnew⟩ := Progress.replay_dispatches hreports hreplay
  refine ⟨engine, log, hengine, ⟨_, hwalk⟩, ?_, hnew.boundary⟩
  rw [Progress.finishReduction_dispatches, hnew.decisions]
  exact hnew.answers

namespace Performed

variable (h : Performed root initialInput executions reduction engine log)
include h

theorem mode : engine.executionMode = .nativeV2 := (Engine.new_eq_ok h.built).2.2.2.1

theorem executions_eq : engine.executions = executions := (Engine.new_eq_ok h.built).1

theorem lineage (htimely : Timely executions) (occurrence : StructuralOccurrence) :
    Lineage (matching executions occurrence) :=
  lineage_of_validated htimely (Engine.new_eq_ok h.built).2.2.2.2.1 occurrence

/-- Every request of the evaluation is justified. -/
theorem justified (hunique : root.UniqueNames) (htimely : Timely executions)
    (hclosed : ClosedVisits root executions) {r : DispatchRequest} (hr : r ∈ requests log) :
    Justified root executions r := by
  have hexecutions := h.executions_eq
  obtain ⟨result, hwalk⟩ := h.walk
  have hkeeps : engine.KeepsMarks (engine.Ended root) root := by
    refine Engine.eval_sources h.mode root fun leaf hleaf spec hspec mapIndices number cutoff
      outcome houtcome => ?_
    exact ⟨leaf, hleaf, spec, hspec, rfl, Engine.concluded_of_leafOutcome h.mode houtcome⟩
  have hmarks : Marks (engine.Ended root) (Context.new (initialState root initialInput)) := by
    intro occurrence number hpositive hle
    have hnone : (Context.new (initialState root initialInput)).visits occurrence = 0 := rfl
    omega
  obtain ⟨source⟩ := (hkeeps hwalk hmarks).sources r (mem_requests.mp hr)
  have hjustified := source.justified hunique (hexecutions ▸ htimely) (hexecutions ▸ hclosed)
    fun occurrence => hexecutions ▸ h.lineage htimely occurrence
  rwa [hexecutions] at hjustified

theorem distinct (hunique : root.UniqueNames) :
    (dispatches reduction.decisions).Pairwise fun a b => a.occurrence ≠ b.occurrence := by
  obtain ⟨⟨status, c⟩, hwalk⟩ := h.walk
  have hrequests : Distinct log := Engine.eval_distinct h.mode root hunique hwalk
  rw [Distinct, ← List.pairwise_map, ← answers_occurrences h.answers, List.pairwise_map]
    at hrequests
  exact hrequests

end Performed

/-! ## Closed visits -/

/-- What recorded dispatches add. -/
theorem Recorded.extra {decisions : List Decision} (h : Recorded decisions executions executions') :
    ∃ extra, executions' = executions ++ extra ∧ ∀ e ∈ extra, ∃ d ∈ dispatches decisions,
      d.execution = e.execution ∧ d.occurrence = e.occurrence ∧ d.attempt = e.attempt := by
  induction h with
  | refl executions => exact ⟨[], (List.append_nil _).symm, fun _ he => (by cases he)⟩
  | @record executions executions' e decided after fresh rest ih =>
    obtain ⟨extra, hextra, hmem⟩ := ih
    refine ⟨e :: extra, ?_, fun e' he' => ?_⟩
    · rw [hextra, List.append_assoc, List.singleton_append]
    · rcases List.mem_cons.mp he' with rfl | he'
      · obtain ⟨-, -, -, iteration, worker, hdecision⟩ := dispatchedAs_eq_some decided
        refine ⟨⟨e'.nodeInstance, e'.execution, e'.occurrence, e'.attempt, iteration, worker,
          e'.input⟩, mem_dispatches.mpr hdecision, rfl, rfl, rfl⟩
      · exact hmem e' he'

theorem dispatch_closedVisits (hunique : root.UniqueNames) (htimely : Timely executions)
    (hclosed : ClosedVisits root executions)
    (hreduce : reduceRun root initialInput executions = .ok reduction)
    (hrecorded : Recorded reduction.decisions executions executions') :
    ClosedVisits root executions' := by
  intro leaf hleaf spec hspec mapIndices
  obtain ⟨engine, log, hperformed⟩ := reduceRun_performed hreduce
  have htimely' := hrecorded.timely htimely
  obtain ⟨extra, rfl, hextra⟩ := hrecorded.extra
  have hsame : ∀ a ∈ extra, ∀ b ∈ extra, a.occurrence = b.occurrence →
      a.execution = b.execution := by
    intro a ha b hb hoccurrence
    obtain ⟨d, hd, hexecution, hd', -⟩ := hextra a ha
    obtain ⟨d', hmem', hexecution', hd'', -⟩ := hextra b hb
    have heq : d = d' := by
      by_contra hne
      have hsymm : Std.Symm fun a b : Dispatch => a.occurrence ≠ b.occurrence :=
        ⟨fun _ _ hab => hab.symm⟩
      exact (hperformed.distinct hunique).forall hd hmem' hne (by rw [hd', hd'', hoccurrence])
    rw [← hexecution, ← hexecution', heq]
  generalize hoccurrence : (⟨spec.name, mapIndices⟩ : StructuralOccurrence) = occurrence
  have hmember : ∀ e ∈ matching extra occurrence, e ∈ extra ∧ e.occurrence = occurrence := by
    intro e he
    rw [matching, List.mem_filter, beq_iff_eq] at he
    exact he
  rw [matching, List.filter_append]
  refine List.IsChain.append ?_ (List.Pairwise.isChain ?_) ?_
  · exact hoccurrence ▸ hclosed leaf hleaf spec hspec mapIndices
  · have hdistinct := (List.pairwise_append.mp htimely'.distinct).2.1.filter
      fun e : DurableExecution => e.occurrence == occurrence
    refine List.Pairwise.imp_of_mem (fun {a b} ha hb hne => ?_) hdistinct
    have ha := hmember a ha
    have hb := hmember b hb
    exact absurd (hsame a ha.1 b hb.1 (ha.2.trans hb.2.symm)) hne
  · intro a ha b hb hfirst
    have hb := hmember b (List.mem_of_head? hb)
    obtain ⟨d, hd, -, hoccurrence', hattempt⟩ := hextra b hb.1
    obtain ⟨r, hr, k, hanswers⟩ := mem_of_answers hperformed.answers hd
    have hr' : r.occurrence = occurrence := by
      rw [← hanswers.occurrence, hoccurrence', hb.2]
    cases hperformed.justified hunique htimely hclosed hr with
    | visit mem isLeaf name attempt nodeInstance concluded =>
      have hspec' := hunique.spec_eq mem hleaf isLeaf hspec (by rw [name, hr', ← hoccurrence])
      rw [← hspec']
      exact concluded a (hr' ▸ ha)
    | @retry _ _ e mem isLeaf name last crashed attempt =>
      have hpositive := e.attempt.positive
      rw [← hattempt, hanswers.attempt, attempt] at hfirst
      omega

theorem finalize_closedVisits (htimely : Timely executions) (hclosed : ClosedVisits root executions)
    {e : DurableExecution} (he : e ∈ executions) (hactive : e.state = .active)
    (state : DurableExecutionState) :
    ClosedVisits root (finalize executions e.execution state) := by
  intro leaf hleaf spec hspec mapIndices
  have hmatching : ∀ occurrence, matching (finalize executions e.execution state) occurrence =
      (matching executions occurrence).map fun a =>
        if a.execution = e.execution then { a with state } else a := by
    intro occurrence
    rw [matching, finalize, List.filter_map, matching]
    congr 1
    refine List.filter_congr fun a _ => ?_
    dsimp only [Function.comp]
    split <;> rfl
  rw [hmatching, List.isChain_map]
  refine (hclosed leaf hleaf spec hspec mapIndices).imp_of_mem_imp fun a b ha hb hab hfirst => ?_
  have hconcluded : Concluded spec a := by
    refine hab ?_
    split at hfirst <;> exact hfirst
  -- A concluded execution is not the active one that changes.
  have hne : a.execution ≠ e.execution := by
    intro heq
    have hsettled := hconcluded.1
    rw [htimely.eq_of_execution (List.mem_of_mem_filter ha) he heq, DurableExecution.isSettled,
      hactive] at hsettled
    cases hsettled
  rw [if_neg hne]
  exact hconcluded

theorem applyEvent_closedVisits (hunique : root.UniqueNames) {event : RunEvent}
    (hbefore : Timely executions ∧ ClosedVisits root executions)
    (h : applyEvent gate root initialInput executions event = some executions') :
    Timely executions' ∧ ClosedVisits root executions' := by
  refine ⟨applyEvent_timely hbefore.1 h, ?_⟩
  obtain ⟨reduction, hreduce, -, hrecorded⟩ | ⟨e, he, position, outcome, hactive, -, -, rfl⟩ |
    ⟨reduction, -, e, he, position, reason, hactive, -, -, rfl⟩ := applyEvent_cases h
  · exact dispatch_closedVisits hunique hbefore.1 hbefore.2 hreduce hrecorded
  · exact finalize_closedVisits hbefore.1 hbefore.2 he hactive _
  · exact finalize_closedVisits hbefore.1 hbefore.2 he hactive _

/-- **Reachable histories open no visit before the last one is concluded.** -/
theorem Reachable.closedVisits (hunique : root.UniqueNames)
    (h : Reachable gate root initialInput executions) : ClosedVisits root executions :=
  (h.induct (P := fun executions => Timely executions ∧ ClosedVisits root executions)
    ⟨Timely.nil, fun _ _ _ _ _ => .nil⟩ (applyEvent_closedVisits hunique)).2

end

/-! ## Discipline -/

/-- What the dispatches of one reduction satisfy. -/
structure DispatchDiscipline (root : GraphNode) (initialInput : Value)
    (executions : List DurableExecution) (reduction : Reduction) : Prop where
  distinct : (dispatches reduction.decisions).Pairwise fun a b => a.occurrence ≠ b.occurrence
  consecutive : (dispatches reduction.decisions).map (fun d => d.execution.get) =
    List.range' (nextExecution executions) (dispatches reduction.decisions).length
  fresh : ∀ d ∈ dispatches reduction.decisions, ∀ e ∈ executions, e.execution ≠ d.execution
  idle : ∀ d ∈ dispatches reduction.decisions, ∀ e ∈ executions, e.occurrence = d.occurrence →
    e.isActive = false
  retry : ∀ d ∈ dispatches reduction.decisions, d.attempt ≠ PositiveInteger.one →
    ∃ leaf ∈ root.descendants, ∃ spec, leaf.spec? = some spec ∧ spec.name = d.occurrence.node ∧
      ∃ e, (matching executions d.occurrence).getLast? = some e ∧ e.isCrashed = true ∧
        e.attempt.get < spec.attemptCeiling.get ∧ d.attempt.get = e.attempt.get + 1 ∧
        d.nodeInstance = e.nodeInstance
  shared : ∃ engine log, Performed root initialInput executions reduction engine log

/-- `record_boundary` accepts the boundary of every request the evaluation makes, also of one that
fails later. -/
def BoundariesAgree (root : GraphNode) (initialInput : Value) (executions : List DurableExecution)
    (engine : Engine) : Prop :=
  ∀ first r rest, (engine.walkRoot root initialInput).log = first ++ .dispatch r :: rest →
    ∀ progress,
      Progress.replay executions first (initialProgress (runInput initialInput executions)) =
        .ok progress →
    ∀ nodeInstance allocated,
      Progress.allocateNodeInstance r.nodeInstance progress = .ok (nodeInstance, allocated) →
        ∃ next, Progress.recordBoundary r.boundary allocated = .ok next

/-- Evaluations in probe mode allocate no identity, set no boundary and decide nothing but voids. -/
def ProbesSilent (executions : List DurableExecution) (engine : Engine) : Prop :=
  ∀ node context t, t.mode = .probe → ∀ progress, ∃ next,
    Progress.replay executions (engine.eval node context t).log progress = .ok next ∧
      Progress.Unmoved progress next

theorem boundariesAgree {root : GraphNode} {initialInput : Value}
    {executions : List DurableExecution} {engine : Engine}
    (hmode : engine.executionMode = .nativeV2) :
    BoundariesAgree root initialInput executions engine := by
  intro first r rest hlog progress hreplay nodeInstance allocated hallocated
  obtain ⟨-, hboundary, -⟩ := Progress.allocateNodeInstance_eq_ok hallocated
  unfold Progress.recordBoundary
  split
  · rename_i current hcurrent
    have hsame : current = r.boundary := by
      rcases Progress.replay_boundary hreplay (hboundary.symm.trans hcurrent) with hstart |
        ⟨r', hr', heq⟩
      · cases hstart
      · rw [← heq]
        refine Engine.eval_shares hmode root rootTraversal
          (Context.new (initialState root initialInput)) r' r ?_ ?_
        · change _ ∈ (engine.walkRoot root initialInput).log
          rw [hlog]
          exact List.mem_append_left _ (mem_requests.mp hr')
        · change _ ∈ (engine.walkRoot root initialInput).log
          rw [hlog]
          exact List.mem_append_right _ List.mem_cons_self
    rw [if_pos hsame]
    exact ⟨_, rfl⟩
  · exact ⟨_, rfl⟩

theorem probesSilent (executions : List DurableExecution) (engine : Engine) :
    ProbesSilent executions engine := fun node context _ ht progress =>
  Progress.replay_silent executions (Engine.probe_silent node ht context) progress

theorem lt_maximum {values : List Nat} {value : Nat} (h : value ∈ values) :
    value < maximum values + 1 := by
  induction values with
  | nil => cases h
  | cons first values ih =>
    have hmaximum : maximum (first :: values) = max first (maximum values) := rfl
    rcases List.mem_cons.mp h with rfl | h
    · omega
    · have := ih h
      omega

theorem Performed.discipline {root : GraphNode} {initialInput : Value}
    {executions : List DurableExecution} {reduction : Reduction} {engine : Engine}
    {log : List Effect} (h : Performed root initialInput executions reduction engine log)
    (hunique : root.UniqueNames) (htimely : Timely executions)
    (hclosed : ClosedVisits root executions) :
    DispatchDiscipline root initialInput executions reduction := by
  have hconsecutive := answers_executions h.answers
  refine ⟨h.distinct hunique, hconsecutive, ?_, ?_, ?_, engine, log, h⟩
  · intro d hd e he heq
    have hnew : d.execution.get ∈ List.range' (nextExecution executions)
        (dispatches reduction.decisions).length := by
      rw [← hconsecutive]
      exact List.mem_map_of_mem hd
    have hold : e.execution.get < nextExecution executions :=
      lt_maximum (List.mem_map_of_mem he)
    rw [List.mem_range'_1, ← heq] at hnew
    omega
  · intro d hd e he hoccurrence
    obtain ⟨r, hr, k, hanswers⟩ := mem_of_answers h.answers hd
    refine (h.justified hunique htimely hclosed hr).idle (h.lineage htimely _) e ?_
    rw [matching, List.mem_filter, beq_iff_eq]
    exact ⟨he, hoccurrence.trans hanswers.occurrence⟩
  · intro d hd hattempt
    obtain ⟨r, hr, k, hanswers⟩ := mem_of_answers h.answers hd
    cases h.justified hunique htimely hclosed hr with
    | visit mem isLeaf name attempt => exact absurd (hanswers.attempt.trans attempt) hattempt
    | @retry leaf spec e mem isLeaf name last crashed attempt ceiling nodeInstance =>
      refine ⟨leaf, mem, spec, isLeaf, by rw [name, hanswers.occurrence], e, ?_, crashed, ?_, ?_,
        hanswers.nodeInstance _ nodeInstance⟩
      · rw [hanswers.occurrence]
        exact last
      · omega
      · rw [hanswers.attempt]
        exact attempt

/-- **Dispatch discipline.** The dispatches of a reduction of a reachable history have distinct
occurrences and consecutive fresh identities, none has an active execution, a retry continues a
crashed last attempt below the ceiling, and all share the reported boundary. No request of an
evaluation disagrees with the boundary, and probes ask for nothing. -/
theorem dispatch_discipline (registry : WorkerRegistry) (graph : GraphSpec) (gate : DispatchGate)
    (initialInput : Value) (executions : List DurableExecution)
    (hverified : Verified registry graph)
    (hreachable : Reachable gate graph.root initialInput executions) :
    (∀ reduction, reduceRun graph.root initialInput executions = .ok reduction →
      DispatchDiscipline graph.root initialInput executions reduction) ∧
    ∀ engine, Engine.new (runInput initialInput executions) graph.root .nativeV2 = .ok engine →
      BoundariesAgree graph.root initialInput executions engine ∧
        ProbesSilent executions engine := by
  have hunique := hverified.uniqueNames
  constructor
  · intro reduction hreduce
    obtain ⟨engine, log, hperformed⟩ := reduceRun_performed hreduce
    exact hperformed.discipline hunique hreachable.timely (hreachable.closedVisits hunique)
  · intro engine hengine
    exact ⟨boundariesAgree (Engine.new_eq_ok hengine).2.2.2.1, probesSilent executions engine⟩

namespace Sample

/-- A step with two attempts. -/
def retried : GraphSpec where
  profile := .full
  initialInput := .null
  policy := policy
  root := .seq (group s) [.step ⟨a, worker, none, .null, .null, [], [], none, two⟩, fail f]
  wellFormed := by decide

/-- The first attempt crashes. -/
def crashed : List RunEvent :=
  [.dispatch [(execution 0, position 1)],
    .settle (execution 0) (position 2) (.error .crash .declaredFailure)]

end Sample

/-- The second attempt of a step that crashed. -/
theorem retried_discipline :
    Verified Sample.registry Sample.retried ∧
      ∃ executions reduction,
        Reachable .voidsFirst Sample.retried.root .null executions ∧
        reduceRun Sample.retried.root .null executions = .ok reduction ∧
        (dispatches reduction.decisions).map Dispatch.attempt = [Sample.two] ∧
        DispatchDiscipline Sample.retried.root .null executions reduction := by
  have hverified : Verified Sample.registry Sample.retried := by decide +kernel
  have hattempts : ((runEvents .voidsFirst Sample.retried.root .null Sample.crashed []).bind
      fun executions => (reduceRun Sample.retried.root .null executions).toOption.map
        fun reduction => (dispatches reduction.decisions).map Dispatch.attempt) =
      some [Sample.two] := by
    decide
  simp only [Option.bind_eq_some_iff, Option.map_eq_some_iff] at hattempts
  obtain ⟨executions, hrun, reduction, hreduction, hattempts⟩ := hattempts
  have hreduce : reduceRun Sample.retried.root .null executions = .ok reduction := by
    cases hresult : reduceRun Sample.retried.root .null executions with
    | error e =>
      rw [hresult] at hreduction
      cases hreduction
    | ok reduction' =>
      rw [hresult] at hreduction
      cases hreduction
      rfl
  have hreachable : Reachable .voidsFirst Sample.retried.root .null executions :=
    ⟨Sample.crashed, hrun⟩
  exact ⟨hverified, executions, reduction, hreachable, hreduce, hattempts,
    (dispatch_discipline Sample.registry Sample.retried .voidsFirst .null executions hverified
      hreachable).1 reduction hreduce⟩

end Zeroshot
