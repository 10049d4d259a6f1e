import Zeroshot.Reducer.Inversion

set_option autoImplicit false

/-!
# Positions of statuses

Every position a status carries comes from an outcome the evaluation looked at: it is bounded by
the cutoff and by any bound of the visible outcomes (`eval_within`).

The first part collects what the small selection functions of the groups return.
-/

namespace Zeroshot

open Logged

/-- Whether a status ends the run. -/
def Status.isTerminal : Status → Bool
  | .terminal _ _ => true
  | .pending | .continuing _ => false

theorem Status.ne_pending {status : Status} (h : status.isTerminal = true) : status ≠ .pending := by
  rintro rfl
  cases h

namespace Engine

/-! ## Selections -/

theorem le_latest {positions : List HistoryPosition} {p : HistoryPosition} (h : p ∈ positions) :
    p ≤ latest positions := by
  induction positions with
  | nil => cases h
  | cons q positions ih =>
    change p ≤ max q (latest positions)
    rcases List.mem_cons.mp h with rfl | h
    · exact le_max_left _ _
    · exact (ih h).trans (le_max_right _ _)

theorem latest_le {positions : List HistoryPosition} {bound : HistoryPosition}
    (h : ∀ p ∈ positions, p ≤ bound) : latest positions ≤ bound := by
  induction positions with
  | nil => exact HistoryPosition.zero_le bound
  | cons q positions ih =>
    exact max_le (h q List.mem_cons_self) (ih fun p hp => h p (List.mem_cons_of_mem q hp))

/-- A completion is a probe that continues and counts for the join. -/
theorem mem_parallelCompletions {engine : Engine} {join : Join} {mapIndices : List Nat}
    {start : Nat} {probes : List (Status × Context)} {i : Nat} {p : HistoryPosition} :
    (i, p) ∈ engine.parallelCompletions join mapIndices start probes ↔
      ∃ k c, i = start + k ∧ probes[k]? = some (.continuing p, c) ∧
        engine.satisfiesJoin join mapIndices c = true := by
  induction probes generalizing start with
  | nil => simp [parallelCompletions]
  | cons probe probes ih =>
    have hshift : (∃ k c, i = start + 1 + k ∧ probes[k]? = some (.continuing p, c) ∧
        engine.satisfiesJoin join mapIndices c = true) ↔
        ∃ k c, i = start + (k + 1) ∧ (probe :: probes)[k + 1]? = some (.continuing p, c) ∧
          engine.satisfiesJoin join mapIndices c = true := by
      simp only [List.getElem?_cons_succ, Nat.add_right_comm start 1, Nat.add_assoc]
    have hsplit : (∃ k c, i = start + k ∧ (probe :: probes)[k]? = some (.continuing p, c) ∧
        engine.satisfiesJoin join mapIndices c = true) ↔
        (i = start ∧ ∃ c, probe = (.continuing p, c) ∧
          engine.satisfiesJoin join mapIndices c = true) ∨
        ∃ k c, i = start + (k + 1) ∧ (probe :: probes)[k + 1]? = some (.continuing p, c) ∧
          engine.satisfiesJoin join mapIndices c = true := by
      constructor
      · rintro ⟨k, c, rfl, hk, hc⟩
        cases k with
        | zero => exact .inl ⟨rfl, c, by simpa using hk, hc⟩
        | succ k => exact .inr ⟨k, c, rfl, hk, hc⟩
      · rintro (⟨rfl, c, rfl, hc⟩ | ⟨k, c, rfl, hk, hc⟩)
        · exact ⟨0, c, rfl, rfl, hc⟩
        · exact ⟨k + 1, c, rfl, hk, hc⟩
    rw [hsplit, ← hshift, ← ih]
    obtain ⟨status, c⟩ := probe
    cases status with
    | pending => simp [parallelCompletions]
    | terminal q r => simp [parallelCompletions]
    | continuing q =>
      rw [parallelCompletions]
      split
      case isTrue hc =>
        simp only [List.mem_cons, Prod.mk.injEq, Status.continuing.injEq]
        constructor
        · rintro (⟨rfl, rfl⟩ | h)
          · exact .inl ⟨rfl, c, ⟨rfl, rfl⟩, hc⟩
          · exact .inr h
        · rintro (⟨rfl, c', ⟨rfl, rfl⟩, -⟩ | h)
          · exact .inl ⟨rfl, rfl⟩
          · exact .inr h
      case isFalse hc =>
        simp only [Prod.mk.injEq, Status.continuing.injEq]
        constructor
        · exact .inr
        · rintro (⟨-, c', ⟨-, rfl⟩, hc'⟩ | h)
          · exact absurd hc' hc
          · exact h

theorem earliestTerminal_eq_none {results : List MapItemResult} {start : Nat} :
    earliestTerminal start results = none ↔ ∀ r ∈ results, r.status.isTerminal = false := by
  induction results generalizing start with
  | nil => simp [earliestTerminal]
  | cons result results ih =>
    rw [List.forall_mem_cons, earliestTerminal, ← @ih (start + 1)]
    cases hstatus : result.status with
    | pending => simp [Status.isTerminal]
    | continuing p => simp [Status.isTerminal]
    | terminal p r =>
      simp only [Status.isTerminal, Bool.true_eq_false, false_and, iff_false]
      cases earliestTerminal (start + 1) results with
      | none => simp
      | some other =>
        dsimp only
        split <;> simp

/-- `earliest_terminal` picks a terminal result that no other one precedes. -/
theorem earliestTerminal_eq_some {results : List MapItemResult} {start i : Nat} {s : Status}
    (h : earliestTerminal start results = some (i, s)) :
    ∃ k r, i = start + k ∧ results[k]? = some r ∧ r.status = s ∧ s.isTerminal = true ∧
      ∀ k' r', results[k']? = some r' → r'.status.isTerminal = true →
        s.position < r'.status.position ∨ s.position = r'.status.position ∧ k ≤ k' := by
  induction results generalizing start i s with
  | nil => cases h
  | cons result results ih =>
    rw [earliestTerminal] at h
    -- A result further on that wins: it precedes the others there, and the head by hypothesis.
    have htail : ∀ {i s}, earliestTerminal (start + 1) results = some (i, s) →
        (result.status.isTerminal = true → s.position < result.status.position) →
        ∃ k r, i = start + k ∧ (result :: results)[k]? = some r ∧ r.status = s ∧
          s.isTerminal = true ∧ ∀ k' r', (result :: results)[k']? = some r' →
            r'.status.isTerminal = true →
              s.position < r'.status.position ∨ s.position = r'.status.position ∧ k ≤ k' := by
      intro i s hs hhead
      obtain ⟨k, r, hi, hk, hr, hterminal, hmin⟩ := ih hs
      refine ⟨k + 1, r, by omega, hk, hr, hterminal, ?_⟩
      intro k' r' hk' hr'
      cases k' with
      | zero =>
        cases hk'
        exact .inl (hhead hr')
      | succ k' =>
        rcases hmin k' r' hk' hr' with hlt | ⟨heq, hle⟩
        · exact .inl hlt
        · exact .inr ⟨heq, by omega⟩
    cases hstatus : result.status with
    | pending =>
      rw [hstatus] at h
      exact htail h (by simp [hstatus, Status.isTerminal])
    | continuing p =>
      rw [hstatus] at h
      exact htail h (by simp [hstatus, Status.isTerminal])
    | terminal p proj =>
      simp only [hstatus] at h
      cases hrest : earliestTerminal (start + 1) results with
      | none =>
        rw [hrest] at h
        cases h
        refine ⟨0, result, rfl, rfl, hstatus, rfl, ?_⟩
        intro k' r' hk' hr'
        cases k' with
        | zero =>
          cases hk'
          exact .inr ⟨by rw [hstatus], Nat.le_refl 0⟩
        | succ k' =>
          have hmem : r' ∈ results := List.mem_of_getElem? hk'
          rw [earliestTerminal_eq_none.mp hrest r' hmem] at hr'
          cases hr'
      | some other =>
        obtain ⟨j, s'⟩ := other
        rw [hrest] at h
        dsimp only at h
        split at h
        case isTrue hle =>
          cases h
          refine ⟨0, result, rfl, rfl, hstatus, rfl, ?_⟩
          intro k' r' hk' hr'
          cases k' with
          | zero =>
            cases hk'
            exact .inr ⟨by rw [hstatus], Nat.le_refl 0⟩
          | succ k' =>
            obtain ⟨k, r, hj, hk, hr, hterminal, hmin⟩ := ih hrest
            have hpos : p ≤ r'.status.position := by
              rcases hmin k' r' hk' hr' with hlt | ⟨heq, -⟩
              · exact hle.trans hlt.le
              · exact hle.trans heq.le
            rcases hpos.lt_or_eq with hlt | heq
            · exact .inl hlt
            · exact .inr ⟨heq, Nat.zero_le _⟩
        case isFalse hgt =>
          cases h
          exact htail hrest fun _ => by rw [hstatus]; exact not_le.mp hgt

/-- The result `earliest_terminal` picks is one of the results. -/
theorem found_mem {results : List MapItemResult} {index : Nat} {found : Status}
    (h : earliestTerminal 0 results = some (index, found)) :
    ∃ r, results[index]? = some r ∧ r.status = found ∧ found.isTerminal = true := by
  obtain ⟨k, r, hk, hr, hstatus, hterminal, -⟩ := earliestTerminal_eq_some h
  rw [Nat.zero_add] at hk
  exact ⟨r, hk ▸ hr, hstatus, hterminal⟩

/-! ## Nodes -/

section

variable (engine : Engine)

theorem eval_seq (group : Group) (children : List GraphNode) :
    engine.eval (.seq group children) = engine.evalSequence group (children.map engine.eval) := by
  rw [eval, evalAll_eq]

theorem eval_par (group : Group) (branches : List GraphNode) (join : Join) (context : Context)
    (t : Traversal) :
    engine.eval (.par group branches join) context t =
      engine.evalParallel group join (branches.map engine.child) context
        (enterGroup group.name t) := by
  rw [eval, evalChildren_eq]

theorem eval_map (group : Group) (body : GraphNode) (overItems : DataSelector)
    (maxItems : PositiveInteger) (context : Context) (t : Traversal) :
    engine.eval (.map group body overItems maxItems) context t =
      engine.evalMap group overItems maxItems (engine.child body) context
        (enterGroup group.name t) := by
  rw [eval, child]

theorem eval_loop (group : Group) (body : GraphNode) (untilGuard : Option Guard)
    (maxIterations : PositiveInteger) (maxIterationsInput : Option FieldPath) :
    engine.eval (.loop group body untilGuard maxIterations maxIterationsInput) =
      engine.evalLoop group (engine.child body) untilGuard maxIterations := by
  rw [eval, child]

/-- The node a choice takes. -/
def selectNode (context : Context) (mapIndices : List Nat) (branches : List (Guard × GraphNode))
    (otherwise : Option GraphNode) : Option GraphNode :=
  ((branches.find? fun branch => engine.guard context mapIndices branch.1).map Prod.snd).or
    otherwise

theorem selectBranch_eq (context : Context) (mapIndices : List Nat)
    (branches : List (Guard × GraphNode)) (otherwise : Option GraphNode) :
    engine.selectBranch context mapIndices
        (branches.map fun branch => (branch.1, engine.eval branch.2)) (otherwise.map engine.eval) =
      (engine.selectNode context mapIndices branches otherwise).map engine.eval := by
  rw [selectBranch, selectNode, List.find?_map, Option.map_map, Option.map_or, Option.map_map]
  rfl

theorem eval_choice_returns {group : Group} {branches : List (Guard × GraphNode)}
    {otherwise : Option GraphNode} {context c : Context} {t : Traversal} {status : Status}
    {log : List Effect}
    (h : (engine.eval (.choice group branches otherwise) context t).Returns (status, c) log) :
    ∃ node local' first second,
      engine.selectNode context.clearWrites t.mapIndices branches otherwise = some node ∧
      (engine.eval node context.clearWrites t).Returns (status, local') first ∧
      engine.closeChoice group context status local' = .ok c ∧
      log = first ++ second ∧ Decisions second := by
  rw [eval, evalBranches_eq, evalOption_eq] at h
  obtain ⟨selected, local', first, second, hselected, hrun, hclose, hlog, hdecisions⟩ :=
    evalChoice_returns h
  rw [selectBranch_eq, Option.map_eq_some_iff] at hselected
  obtain ⟨node, hnode, rfl⟩ := hselected
  exact ⟨node, local', first, second, hnode, hrun, hclose, hlog, hdecisions⟩

end

theorem selectNode_mem {engine : Engine} {context : Context} {mapIndices : List Nat}
    {branches : List (Guard × GraphNode)} {otherwise : Option GraphNode} {node : GraphNode}
    (h : engine.selectNode context mapIndices branches otherwise = some node) :
    (∃ b ∈ branches, b.2 = node) ∨ node ∈ otherwise := by
  rw [selectNode, Option.or_eq_some_iff] at h
  rcases h with h | ⟨-, h⟩
  · obtain ⟨b, hb, rfl⟩ := Option.map_eq_some_iff.mp h
    exact .inl ⟨b, List.mem_of_find?_eq_some hb, rfl⟩
  · exact .inr h

theorem selectNode_child {engine : Engine} {context : Context} {mapIndices : List Nat}
    {group : Group} {branches : List (Guard × GraphNode)} {otherwise : Option GraphNode}
    {node : GraphNode} (h : engine.selectNode context mapIndices branches otherwise = some node) :
    node ∈ (GraphNode.choice group branches otherwise).children := by
  rw [GraphNode.children, List.mem_append, List.mem_map, Option.mem_toList]
  exact selectNode_mem h

/-! ## Bounds -/

section

variable {engine : Engine}

/-- Every outcome an evaluation with this cutoff can look at is within the bound. -/
def LeafBound (engine : Engine) (cutoff bound : HistoryPosition) : Prop :=
  ∀ spec mapIndices number c p o, c ≤ cutoff →
    engine.leafOutcome spec mapIndices number c = some (p, o) → p ≤ bound

theorem LeafBound.mono {c c' bound : HistoryPosition} (h : LeafBound engine c bound)
    (hle : c' ≤ c) : LeafBound engine c' bound :=
  fun spec mapIndices number c₀ p o hc => h spec mapIndices number c₀ p o (hc.trans hle)

theorem visible_of_leafOutcome {spec : ExecutableSpec} {mapIndices : List Nat} {number : Nat}
    {cutoff p : HistoryPosition} {o : WorkerOutcome}
    (h : engine.leafOutcome spec mapIndices number cutoff = some (p, o)) :
    ∃ e ∈ engine.visitExecutions ⟨spec.name, mapIndices⟩ number, e.state = .settled p o ∧
      e.dispatchPosition ≤ cutoff ∧ p ≤ cutoff := by
  obtain ⟨e, hlast, he⟩ := Option.bind_eq_some_iff.mp h
  refine ⟨e, List.mem_of_getLast? hlast, ?_⟩
  have hvisible := (Option.filter_eq_some_iff.mp he).1
  unfold visibleOutcome at hvisible
  split at hvisible
  case h_1 q r hstate =>
    split at hvisible
    case isTrue hle =>
      cases hvisible
      exact ⟨hstate, hle⟩
    case isFalse => cases hvisible
  all_goals cases hvisible

theorem leafBound_cutoff (cutoff : HistoryPosition) : LeafBound engine cutoff cutoff := by
  intro spec mapIndices number c p o hc h
  obtain ⟨e, -, -, -, hle⟩ := visible_of_leafOutcome h
  exact hle.trans hc

theorem mem_of_mem_nativeVisitExecutions {requested visit : Nat}
    {executions : List DurableExecution} {e : DurableExecution}
    (h : e ∈ nativeVisitExecutions requested visit executions) : e ∈ executions := by
  induction executions generalizing visit with
  | nil => cases h
  | cons a executions ih =>
    simp only [nativeVisitExecutions] at h
    generalize (if a.attempt.get = 1 then visit + 1 else visit) = visit' at h
    split at h
    · rcases List.mem_cons.mp h with rfl | h
      · exact List.mem_cons_self
      · exact List.mem_cons_of_mem a (ih h)
    · exact List.mem_cons_of_mem a (ih h)

theorem mem_of_mem_visitExecutions {occurrence : StructuralOccurrence} {number : Nat}
    {e : DurableExecution} (h : e ∈ engine.visitExecutions occurrence number) :
    e ∈ engine.executions ∧ e.occurrence = occurrence := by
  have hmatch := (List.mem_insertionSort _).mp (mem_of_mem_nativeVisitExecutions h)
  rw [matching, List.mem_filter, beq_iff_eq] at hmatch
  exact hmatch

/-- The settled positions of a history bound every outcome. -/
theorem leafBound_of_settled {bound : HistoryPosition}
    (h : ∀ e ∈ engine.executions, ∀ p o, e.state = .settled p o → p ≤ bound)
    (cutoff : HistoryPosition) : LeafBound engine cutoff bound := by
  intro spec mapIndices number c p o _ hleaf
  obtain ⟨e, he, hstate, -, -⟩ := visible_of_leafOutcome hleaf
  exact h e (mem_of_mem_visitExecutions he).1 p o hstate

/-- Statuses that are not pending are within a bound. -/
def Within (bound : HistoryPosition) (status : Status) : Prop :=
  status ≠ .pending → status.position ≤ bound

theorem Within.after {bound position : HistoryPosition} {status : Status}
    (h : Within bound status) (hposition : position ≤ bound) :
    Within bound (status.after position) := by
  cases status with
  | pending => exact h
  | continuing p => exact h
  | terminal p r => exact fun _ => max_le (h (by simp)) hposition

theorem runChildren_within {children : List Evaluator} {t : Traversal} {bound : HistoryPosition}
    (hchildren : ∀ child ∈ children, ∀ context status c log,
      (child context t).Returns (status, c) log → Within bound status)
    {position : HistoryPosition} (hposition : position ≤ bound) {context c : Context}
    {status : Status} {log : List Effect}
    (h : (runChildren children position context t).Returns (status, c) log) :
    Within bound status := by
  induction children generalizing position context log with
  | nil =>
    obtain ⟨rfl, -, -⟩ := runChildren_nil h
    exact fun _ => hposition
  | cons child rest ih =>
    have hchild := hchildren child List.mem_cons_self
    obtain ⟨p, c', first, second, hrun, hrest, -⟩ | ⟨s, hrun, -, rfl⟩ := runChildren_cons h
    · exact ih (fun child hmem => hchildren child (List.mem_cons_of_mem _ hmem))
        (max_le hposition (hchild _ _ _ _ hrun (by simp))) hrest
    · exact (hchild _ _ _ _ hrun).after hposition

/-- The statuses and positions of a loop's end are within a bound. -/
def ExitWithin (bound : HistoryPosition) : LoopExit → Prop
  | .stopped status => Within bound status
  | .completed _ position _ => position ≤ bound

theorem runIterations_within {names : List NodeName} {body : Evaluator}
    {untilGuard : Option Guard} {t : Traversal} {bound : HistoryPosition}
    (hbody : ∀ iteration context status c log,
      (body context (iterationTraversal t iteration)).Returns (status, c) log → Within bound status)
    {remaining iteration : Nat} {position : HistoryPosition} (hposition : position ≤ bound)
    {context : Context} {exit : LoopExit} {log : List Effect}
    (h : (engine.runIterations names body untilGuard t remaining iteration position
      context).Returns exit log) : ExitWithin bound exit := by
  induction remaining generalizing iteration position context log with
  | zero =>
    obtain ⟨rfl, -⟩ := returns_pure.mp h
    exact hposition
  | succ remaining ih =>
    obtain ⟨p, c, first, second, hrun, -, hnext⟩ | ⟨s, c, hrun, -, rfl⟩ := runIterations_succ h
    · have hmax : max position p ≤ bound :=
        max_le hposition (hbody _ _ _ _ _ hrun (by simp))
      obtain ⟨-, rfl, -⟩ | ⟨-, hrest⟩ := hnext
      · exact hmax
      · exact ih hmax hrest
    · exact (hbody _ _ _ _ _ hrun).after hposition

theorem leafResult_returns {spec : ExecutableSpec} {mapIndices : List Nat}
    {outcome : Option (HistoryPosition × WorkerOutcome)} {context c : Context} {status : Status}
    (h : engine.leafResult spec mapIndices outcome context = .ok (status, c)) :
    (outcome = none ∧ status = .pending ∧ c = context) ∨
    (∃ p o applied, outcome = some (p, o) ∧ status = .continuing p ∧
      engine.applyOutcome spec mapIndices o context = .ok (c, applied)) := by
  cases outcome with
  | none =>
    cases h
    exact .inl ⟨rfl, rfl, rfl⟩
  | some pair =>
    obtain ⟨p, o⟩ := pair
    simp only [leafResult, except_bind_eq_ok] at h
    obtain ⟨⟨c', applied⟩, happlied, hr⟩ := h
    cases hr
    exact .inr ⟨p, o, applied, rfl, rfl, happlied⟩

theorem evalExecutable_within (hmode : engine.executionMode = .nativeV2) {spec : ExecutableSpec}
    {context c : Context} {t : Traversal} {status : Status} {log : List Effect}
    {bound : HistoryPosition} (hbound : LeafBound engine t.cutoff bound)
    (h : (engine.evalExecutable spec context t).Returns (status, c) log) : Within bound status := by
  obtain ⟨number, input, rest, -, -, -, -, hleaf, -⟩ := evalExecutable_returns hmode h
  obtain ⟨-, rfl, -⟩ | ⟨p, o, applied, houtcome, rfl, -⟩ := leafResult_returns hleaf
  · exact fun hne => absurd rfl hne
  · exact fun _ => hbound spec t.mapIndices number t.cutoff p o le_rfl houtcome

/-- The position of a winner is the position its probe continues at. -/
theorem probe_of_mem_winners {join : Join} {mapIndices : List Nat}
    {probes : List (Status × Context)} {i : Nat} {p : HistoryPosition}
    (h : (i, p) ∈ engine.winnersOf join mapIndices probes) :
    ∃ c, probes[i]? = some (.continuing p, c) ∧ engine.satisfiesJoin join mapIndices c = true := by
  obtain ⟨k, c, hi, hk, hc⟩ := mem_parallelCompletions.mp
    ((List.mem_insertionSort _).mp (List.mem_of_mem_take h))
  rw [Nat.zero_add] at hi
  exact ⟨c, hi ▸ hk, hc⟩

/-- What bounds the probes bounds the position of a reached join. -/
theorem latest_winners_le {join : Join} {mapIndices : List Nat} {probes : List (Status × Context)}
    {bound : HistoryPosition} (hprobes : ∀ probe ∈ probes, Within bound probe.1) :
    latest ((engine.winnersOf join mapIndices probes).map Prod.snd) ≤ bound := by
  refine latest_le fun p hp => ?_
  obtain ⟨⟨i, q⟩, hmem, rfl⟩ := List.mem_map.mp hp
  obtain ⟨c, hprobe, -⟩ := probe_of_mem_winners hmem
  exact hprobes _ (List.mem_of_getElem? hprobe) (by simp)

/-- What bounds the probes bounds the status of a parallel visit. -/
theorem ParallelRun.within {group : Group} {join : Join} {branches : List Child}
    {context c : Context} {t : Traversal} {probes : List (Status × Context)}
    {plog log : List Effect} {status : Status} {bound : HistoryPosition}
    (hprobes : ∀ probe ∈ probes, Within bound probe.1)
    (h : ParallelRun engine group join branches context t probes plog status c log) :
    Within bound status := by
  cases h with
  | opened => exact fun hne => absurd rfl hne
  | unreachable dlog hfew hsettled =>
    refine fun _ => latest_le fun p hp => ?_
    obtain ⟨probe, hprobe, rfl⟩ := List.mem_map.mp (List.mem_of_mem_filter hp)
    exact hprobes probe hprobe (hsettled probe hprobe)
  | reached position joined wlog first last hmany hposition =>
    exact fun _ => hposition ▸ latest_winners_le hprobes

/-- **Positions are bounded by the outcomes an evaluation can see.** -/
theorem eval_within (hmode : engine.executionMode = .nativeV2) (node : GraphNode) :
    ∀ {context c : Context} {t : Traversal} {status : Status} {log : List Effect}
      {bound : HistoryPosition}, LeafBound engine t.cutoff bound →
      (engine.eval node context t).Returns (status, c) log → Within bound status := by
  induction node using GraphNode.induct with
  | step node => exact fun hbound h => evalExecutable_within hmode hbound h
  | verifier node => exact fun hbound h => evalExecutable_within hmode hbound h
  | seq group children ih =>
    intro context c t status log bound hbound h
    rw [eval_seq] at h
    obtain ⟨local', first, second, hchildren, -, -, -⟩ := evalSequence_returns h
    refine runChildren_within ?_ (HistoryPosition.zero_le bound) hchildren
    intro child hchild context status c log hrun
    obtain ⟨node, hnode, rfl⟩ := List.mem_map.mp hchild
    exact ih node hnode hbound hrun
  | choice group branches otherwise ihbranches ihotherwise =>
    intro context c t status log bound hbound h
    obtain ⟨node, local', first, second, hnode, hrun, -, -, -⟩ := eval_choice_returns engine h
    rcases selectNode_mem hnode with ⟨b, hb, rfl⟩ | hother
    · exact ihbranches b hb hbound hrun
    · exact ihotherwise node hother hbound hrun
  | par group branches join ih =>
    intro context c t status log bound hbound h
    rw [eval_par] at h
    obtain ⟨probes, plog, hprobes, hrun⟩ := evalParallel_returns h
    refine hrun.within fun probe hprobe => ?_
    obtain ⟨k, hk⟩ := List.getElem?_of_mem hprobe
    obtain ⟨branch, inner, hbranch, hinner, -⟩ := forEach_get_result hprobes hk
    obtain ⟨node, hnode, rfl⟩ := List.mem_map.mp (List.mem_of_getElem? hbranch)
    refine ih node hnode ?_ hinner
    exact hbound
  | loop group body untilGuard maxIterations maxIterationsInput ih =>
    intro context c t status log bound hbound h
    rw [eval_loop] at h
    obtain ⟨exit, first, second, hiterations, hclose, -, -⟩ := evalLoop_returns h
    have hbody : ∀ iteration context status c log,
        ((engine.child body).run context (iterationTraversal t iteration)).Returns (status, c) log →
          Within bound status := by
      intro iteration context status c log hrun
      refine ih ?_ hrun
      exact hbound
    have hexit : ExitWithin bound exit :=
      runIterations_within hbody (HistoryPosition.zero_le bound) hiterations
    cases exit with
    | stopped s =>
      cases hclose
      exact hexit
    | completed local' position label =>
      simp only [closeLoop, except_bind_eq_ok] at hclose
      obtain ⟨_, -, hr⟩ := hclose
      cases hr
      exact fun _ => hexit
  | map group body overItems maxItems ih =>
    intro context c t status log bound hbound h
    rw [eval_map] at h
    obtain ⟨selected, items, -, -, hmap⟩ := evalMap_returns h
    obtain ⟨-, rfl, -, -⟩ | ⟨-, probes, plog, hprobes, hrun⟩ := hmap
    · exact fun _ => HistoryPosition.zero_le bound
    have hresult : ∀ {t' : Traversal} {results log'} (b : HistoryPosition),
        LeafBound engine t.cutoff b →
        (evaluateMapItems (engine.child body).run context t' items).Returns results log' →
        t'.cutoff = t.cutoff → ∀ r ∈ results, Within b r.status := by
      intro t' results log' b hb hresults hcutoff r hr
      obtain ⟨k, hk⟩ := List.getElem?_of_mem hr
      obtain ⟨item, inner, -, hinner, -⟩ := evaluateMapItems_get_result hresults hk
      refine ih ?_ hinner.2
      exact hcutoff ▸ hb
    cases hrun with
    | terminal index found item s dlog hfound hitem hdecide =>
      obtain ⟨r, hr, rfl, hterminal⟩ := found_mem hfound
      have hmem : r ∈ probes := List.mem_of_getElem? hr
      rcases hdecide with ⟨-, rfl, -⟩ | ⟨-, c', hagain⟩
      · exact hresult bound hbound hprobes rfl r hmem
      · have hcutoff : r.status.position ≤ t.cutoff :=
          hresult t.cutoff (leafBound_cutoff _) hprobes rfl r hmem (Status.ne_pending hterminal)
        refine ih ?_ hagain
        exact hbound.mono hcutoff
    | pending => exact fun hne => absurd rfl hne
    | finished results rlog dlog c' hnone hresults hsettled =>
      refine fun _ => latest_le fun p hp => ?_
      obtain ⟨r, hr, rfl⟩ := List.mem_map.mp hp
      rcases hresults with ⟨-, rfl, -⟩ | ⟨-, hresults⟩
      · exact hresult bound hbound hprobes rfl r hr (hsettled r hr)
      · exact hresult bound hbound hresults rfl r hr (hsettled r hr)
  | succeed node =>
    intro context c t status log bound hbound h
    obtain ⟨output, -, rfl, -, -⟩ := evalSucceed_returns h
    exact fun _ => HistoryPosition.zero_le bound
  | fail node =>
    intro context c t status log bound hbound h
    obtain ⟨rfl, -, -⟩ := evalFail_returns h
    exact fun _ => HistoryPosition.zero_le bound

end

end Engine

end Zeroshot
