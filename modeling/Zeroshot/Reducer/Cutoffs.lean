import Zeroshot.Reducer.Causality
import Zeroshot.Reducer.Paths
import Zeroshot.Reducer.Reduction

set_option autoImplicit false

/-!
# Earlier cutoffs

`eval_tied` compares evaluations that return. Here evaluations are shown to return: what a probe
evaluates up to some cutoff, a probe up to an earlier cutoff evaluates without a failure
(`eval_follows`), and so does a decision when the result is known by then, but for the values that
it reports as promoted, which may be missing from the state.

So a probe that completes at some position completes alike under every cutoff from that position on
(`eval_truncated`), and the second evaluation of a race's winner, or of a map's terminal item,
repeats the first.
-/

namespace Zeroshot

open Logged Engine

/-- The failures of an evaluation that follows a probe: none in a probe, a missing promoted value in
a decision. -/
def ReportFailure (mode : EvalMode) (error : ReducerError) : Prop :=
  mode = .decide ∧ error = .missingSelectedValue

/-! ## Reports -/

theorem select_error {value : Value} {path : FieldPath} {error : ReducerError}
    (h : select value path = .error error) : error = .missingSelectedValue :=
  selectSegments_error h

theorem promotedValue_error {state : Value} {path : FieldPath} {writes : OrdSet FieldPath}
    {optional : Bool} {error : ReducerError}
    (h : promotedValue state path writes optional = .error error) :
    error = .missingSelectedValue := by
  unfold promotedValue at h
  split at h
  · cases h
  split at h
  · cases h
  · split at h <;> cases h
    rfl
  · rename_i other hselect
    cases h
    exact select_error hselect

theorem promotedValues_error {state : Value} {writes optional : OrdSet FieldPath}
    {paths : List FieldPath} {error : ReducerError}
    (h : promotedValues state writes optional paths = .error error) :
    error = .missingSelectedValue := by
  induction paths with
  | nil => cases h
  | cons path paths ih =>
    rw [promotedValues, except_bind_eq_error] at h
    rcases h with h | ⟨value, -, h⟩
    · exact promotedValue_error h
    rw [except_bind_eq_error] at h
    rcases h with h | ⟨values, -, h⟩
    · exact ih h
    · split at h <;> cases h

theorem writtenValues_error {state : Value} {bindings : List WriteBinding} {error : ReducerError}
    (h : writtenValues state bindings = .error error) : error = .missingSelectedValue := by
  induction bindings with
  | nil => cases h
  | cons binding bindings ih =>
    rw [writtenValues, except_bind_eq_error] at h
    rcases h with h | ⟨value, -, h⟩
    · exact select_error h
    rw [except_bind_eq_error] at h
    rcases h with h | ⟨values, -, h⟩
    · exact ih h
    · cases h

section

variable {engine : Engine} {allowed : ReducerError → Prop}

theorem continueDecision_failsOnly (node : NodeName) (mode : EvalMode) :
    (continueDecision node mode).FailsOnly allowed := by
  cases mode with
  | decide => exact .emit _
  | probe => exact .pure ()

theorem promoteDecision_failsOnly (node : NodeName) (mapIndices : List Nat)
    (values : List PromotedValue) (mode : EvalMode) :
    (promoteDecision node mapIndices values mode).FailsOnly allowed := by
  unfold promoteDecision
  split
  · exact .emit _
  · exact .pure ()

/-- A promotion that succeeds for one evaluation succeeds for every one. -/
theorem promote_failsOnly {node : NodeName} {paths : List FieldPath} {local' parent c : Context}
    (h : engine.promoted node paths local' parent = .ok c) (t : Traversal) :
    (engine.promote node paths local' parent t).FailsOnly allowed := by
  rw [promoted, except_bind_eq_ok] at h
  obtain ⟨optional, hoptional, h⟩ := h
  rw [except_bind_eq_ok] at h
  obtain ⟨values, hvalues, -⟩ := h
  refine .bind_ok hoptional (.bind_ok hvalues ?_)
  exact (promoteDecision_failsOnly _ _ _ _).bind fun _ _ _ => .pure _

theorem promoteWrites_failsOnly (spec : ExecutableSpec) (context : Context) (t : Traversal) :
    (promoteWrites spec context t).FailsOnly (ReportFailure t.mode) := by
  unfold promoteWrites
  split
  · rename_i hmode
    rw [Bool.and_eq_true, beq_iff_eq] at hmode
    refine .bind (.lift fun e he => ⟨hmode.1, writtenValues_error he⟩) fun _ _ _ => .emit _
  · exact .pure ()

/-- The engine has the optional promotions of every race of the node. -/
def Engine.Knows (engine : Engine) (node : GraphNode) : Prop :=
  ∀ group branches join, .par group branches join ∈ node.descendants →
    ∃ optional, engine.optionalPathsOf group.name = .ok optional

theorem emitParallelPromotion_failsOnly {group : Group} {optional : OrdSet FieldPath}
    (h : engine.optionalPathsOf group.name = .ok optional) (joined : Context) (t : Traversal) :
    (engine.emitParallelPromotion group joined t).FailsOnly (ReportFailure t.mode) := by
  unfold emitParallelPromotion
  split
  · rename_i hmode
    rw [Bool.and_eq_true, beq_iff_eq] at hmode
    refine .bind_ok h ?_
    refine .bind (.lift fun e he => ⟨hmode.1, promotedValues_error he⟩) fun _ _ _ => ?_
    exact promoteDecision_failsOnly _ _ _ _
  · exact .pure ()

end

/-! ## Following a probe -/

/-- Whatever the probe returns, the evaluation up to the earlier cutoff does not fail, given that it
is a probe too or that the result is known by then. -/
def Engine.Follows (mode : EvalMode) (c c' : HistoryPosition) (f : Evaluator) : Prop :=
  ∀ context t t', Sync .probe mode c c' t t' → ∀ r log, (f context t).Returns r log →
    mode = .probe ∨ ¬ Late c' r.1 → (f context t').FailsOnly (ReportFailure mode)

section

variable {engine : Engine} (hfamily : EngineFamily False (fun _ => True) fun x => x = engine)
include hfamily

/-- Up to an earlier cutoff an evaluation returns the same, when that is known by then, or is
pending. -/
theorem eval_same_or_pending (node : GraphNode) {mode : EvalMode} {c c' : HistoryPosition}
    (hle : c' ≤ c) {context : Context} {t t' : Traversal} (hsync : Sync .probe mode c c' t t')
    {r r' : Status × Context} {log log' : List Effect}
    (h : (engine.eval node context t).Returns r log)
    (h' : (engine.eval node context t').Returns r' log') :
    ¬ Late c' r.1 ∧ r' = r ∨ Late c' r.1 ∧ r'.1 = .pending := by
  obtain ⟨hfalse, -⟩ | hknown := eval_tied_any hfamily node rfl rfl trivial (.inr ⟨hle, le_rfl⟩)
    .probe mode _ _ _ hsync _ _ _ _ h h'
  · exact hfalse.elim
  by_cases hlate : Late c' r.1
  · right
    refine ⟨hlate, ?_⟩
    by_contra hne
    have hwithin : Within c' r'.1 := by
      refine eval_within (hfamily.config rfl rfl).native node ?_ h'
      exact hsync.cutoff' ▸ leafBound_cutoff t'.cutoff
    exact not_late_of_within hwithin le_rfl hne (late_of_known_eq hknown hlate)
  · exact .inl ⟨hlate, eq_of_known_eq hknown hlate⟩

/-! ### Executables -/

theorem executable_follows (spec : ExecutableSpec) {mode : EvalMode} {c c' : HistoryPosition}
    (hle : c' ≤ c) : Follows mode c c' (engine.evalExecutable spec) := by
  have hnative := (hfamily.config (rfl : engine = engine) rfl).native
  rintro context t t' hsync ⟨status, d⟩ log h hmode
  simp only [evalExecutable, returns_bind, returns_lift] at h ⊢
  obtain ⟨resolution, _, _, ⟨hresolution, rfl⟩, h, -⟩ := h
  rw [hsync.mapIndices] at hresolution
  refine .bind_ok hresolution ?_
  cases resolution with
  | exhausted => exact .pure _
  | ready visit =>
    simp only [returns_bind, returns_lift] at h
    obtain ⟨input, _, _, ⟨hinput, rfl⟩, h, -⟩ := h
    rw [hsync.item] at hinput
    refine .bind_ok hinput ?_
    split at h
    · exact (returns_fail.mp h).elim
    rename_i hinputs
    rw [if_neg hinputs]
    simp only [returns_bind, returns_emit] at h
    obtain ⟨_, _, _, -, h, -⟩ := h
    refine (FailsOnly.emit _).bind fun _ _ _ => ?_
    cases hexisting : visit.existing with
    | none =>
      refine .bind ?_ fun _ _ _ => .pure _
      unfold dispatchMissing
      split
      · exact .emit _
      · exact .pure ()
    | some e =>
      rw [hexisting] at h
      simp only [finishExistingExecution] at h ⊢
      cases hvisible' : visibleOutcome t'.cutoff e with
      | none => exact .pure _
      | some outcome =>
        obtain ⟨position, outcome⟩ := outcome
        -- What is visible up to the earlier cutoff is visible up to the later one.
        have hvisible : visibleOutcome t.cutoff e = some (position, outcome) := by
          unfold visibleOutcome at hvisible' ⊢
          split at hvisible'
          · rename_i hstate
            split at hvisible'
            · rename_i hcut
              cases hvisible'
              rw [hsync.cutoff'] at hcut
              rw [hsync.cutoff, if_pos ⟨hcut.1.trans hle, hcut.2.trans hle⟩]
            · cases hvisible'
          all_goals cases hvisible'
        rw [hvisible] at h
        dsimp only at h ⊢
        split at h
        · rename_i hretried
          rw [if_pos hretried]
          simp only [returns_bind, returns_pure] at h
          obtain ⟨_, _, _, -, ⟨hr, -⟩, -⟩ := h
          cases hr
          have hprobe : mode = .probe := hmode.resolve_right fun hnot => hnot late_pending
          have hmay : mayDispatch t' = false := by
            simp [mayDispatch, hsync.mode', hprobe]
          rw [dispatchRetry, hmay]
          exact (FailsOnly.pure ()).bind fun _ _ _ => .pure _
        · rename_i hretried
          rw [if_neg hretried]
          simp only [returns_bind, returns_lift] at h
          obtain ⟨applied, _, _, ⟨happlied, -⟩, -⟩ := h
          rw [hsync.mapIndices] at happlied
          refine .bind_ok happlied ?_
          split
          · rw [← hsync.mode']
            refine (promoteWrites_failsOnly _ _ _).bind fun _ _ _ => ?_
            exact (continueDecision_failsOnly _ _).bind fun _ _ _ => .pure _
          · exact (continueDecision_failsOnly _ _).bind fun _ _ _ => .pure _

/-! ### Sequences, choices and loops -/

theorem runChildren_follows {mode : EvalMode} {c c' : HistoryPosition} (hle : c' ≤ c)
    {nodes : List GraphNode} (ih : ∀ n ∈ nodes, Follows mode c c' (engine.eval n))
    {t t' : Traversal} (hsync : Sync .probe mode c c' t t') {position : HistoryPosition}
    {context d : Context} {status : Status} {log : List Effect}
    (h : (runChildren (nodes.map engine.eval) position context t).Returns (status, d) log)
    (hmode : mode = .probe ∨ ¬ Late c' status) :
    (runChildren (nodes.map engine.eval) position context t').FailsOnly (ReportFailure mode) := by
  induction nodes generalizing position context log with
  | nil => exact .pure _
  | cons node nodes ihnodes =>
    have hchild := ih node List.mem_cons_self
    rw [List.map_cons] at h ⊢
    rw [runChildren]
    obtain ⟨p, e, first, second, hfirst, hrest, -⟩ | ⟨s, hfirst, hstops, hstatus⟩ :=
      runChildren_cons h
    · have hknown : mode = .probe ∨ ¬ Late c' (.continuing p) := by
        refine hmode.imp_right fun hnot hlate => hnot (runChildren_late ?_ hrest)
        exact (late_continuing.mp hlate).trans_le (le_max_right _ _)
      refine (hchild _ _ _ hsync _ _ hfirst hknown).bind fun r' log' hr' => ?_
      obtain ⟨s', e'⟩ := r'
      obtain ⟨-, hsame⟩ | ⟨-, hpending⟩ :=
        eval_same_or_pending hfamily node hle hsync hfirst hr'
      · cases hsame
        exact ihnodes (fun n hn => ih n (List.mem_cons_of_mem _ hn)) hrest
      · cases hpending
        exact .pure _
    · have hknown : mode = .probe ∨ ¬ Late c' s :=
        hmode.imp_right fun hnot hlate => hnot (hstatus ▸ late_after hlate)
      refine (hchild _ _ _ hsync _ _ hfirst hknown).bind fun r' log' hr' => ?_
      obtain ⟨s', e'⟩ := r'
      have hstops' : s'.Stops := by
        obtain ⟨-, hsame⟩ | ⟨-, hpending⟩ :=
          eval_same_or_pending hfamily node hle hsync hfirst hr'
        · cases hsame
          exact hstops
        · cases hpending
          exact Status.stops_pending
      cases s' with
      | continuing p => exact absurd rfl (hstops' p)
      | pending => exact .pure _
      | terminal p r => exact .pure _

theorem sequence_follows {mode : EvalMode} {c c' : HistoryPosition} (hle : c' ≤ c)
    {group : Group} {nodes : List GraphNode} (ih : ∀ n ∈ nodes, Follows mode c c' (engine.eval n)) :
    Follows mode c c' (engine.eval (.seq group nodes)) := by
  rintro context t t' hsync ⟨status, d⟩ log h hmode
  rw [eval_seq] at h ⊢
  obtain ⟨local', first, second, hrun, hclose, -⟩ := evalSequence_returns h
  refine (runChildren_follows hfamily hle ih hsync hrun hmode).bind fun r' log' hr' => ?_
  obtain ⟨status', local''⟩ := r'
  cases status' with
  | pending => exact .pure _
  | terminal p r => exact .pure _
  | continuing p =>
    -- A sequence that continues up to the earlier cutoff continues alike up to the later one.
    have hchildren : List.Forall₂ (EvalTied False c' .probe mode c c') (nodes.map engine.eval)
        (nodes.map engine.eval) := by
      rw [List.forall₂_map_left_iff, List.forall₂_map_right_iff, List.forall₂_same]
      exact fun n _ => eval_tied_any hfamily n rfl rfl trivial (.inr ⟨hle, le_rfl⟩) .probe mode
    have hsame : (status, local') = (.continuing p, local'') := by
      obtain ⟨hfalse, -⟩ | hknown := runChildren_tied hchildren hsync (Nat.zero_le _) hrun hr'
      · exact hfalse.elim
      refine eq_of_known_eq hknown.symm ?_
      have hwithin : Within c' (.continuing p) := by
        refine runChildren_within ?_ (Nat.zero_le _) hr'
        intro child hchild context' status' e' log'' hrun'
        obtain ⟨n, -, rfl⟩ := List.mem_map.mp hchild
        refine eval_within (hfamily.config rfl rfl).native n ?_ hrun'
        exact hsync.cutoff' ▸ leafBound_cutoff t'.cutoff
      exact not_late_of_within hwithin le_rfl (by simp)
    cases hsame
    refine (promote_failsOnly hclose t').bind fun _ _ _ => ?_
    exact (continueDecision_failsOnly _ _).bind fun _ _ _ => .pure _

theorem choice_follows {mode : EvalMode} {c c' : HistoryPosition} (hle : c' ≤ c)
    {group : Group} {branches : List (Guard × GraphNode)} {otherwise : Option GraphNode}
    (ihbranches : ∀ b ∈ branches, Follows mode c c' (engine.eval b.2))
    (ihotherwise : ∀ n ∈ otherwise, Follows mode c c' (engine.eval n)) :
    Follows mode c c' (engine.eval (.choice group branches otherwise)) := by
  rintro context t t' hsync ⟨status, d⟩ log h hmode
  obtain ⟨node, local', first, second, hselect, hrun, hclose, -⟩ :=
    eval_choice_returns engine h
  have hfollows : Follows mode c c' (engine.eval node) := by
    obtain ⟨b, hb, rfl⟩ | hnode := selectNode_mem hselect
    · exact ihbranches b hb
    · exact ihotherwise node hnode
  rw [hsync.mapIndices] at hselect
  rw [Engine.eval, evalBranches_eq, evalOption_eq]
  unfold evalChoice
  rw [selectBranch_eq, hselect]
  refine (hfollows _ _ _ hsync _ _ hrun hmode).bind fun r' log' hr' => ?_
  obtain ⟨status', local''⟩ := r'
  obtain ⟨-, hsame⟩ | ⟨-, hpending⟩ := eval_same_or_pending hfamily node hle hsync hrun hr'
  · cases hsame
    cases status with
    | pending => exact .pure _
    | terminal p r => exact .pure _
    | continuing p =>
      rw [closeChoice, except_bind_eq_ok] at hclose
      obtain ⟨promoted, hpromoted, -⟩ := hclose
      refine (promote_failsOnly hpromoted t').bind fun _ _ _ => ?_
      exact (continueDecision_failsOnly _ _).bind fun _ _ _ => .pure _
  · cases hpending
    exact .pure _

theorem runIterations_follows {mode : EvalMode} {c c' : HistoryPosition} (hle : c' ≤ c)
    {node : GraphNode} (ih : Follows mode c c' (engine.eval node)) {names : List NodeName}
    {untilGuard : Option Guard} {t t' : Traversal} (hsync : Sync .probe mode c c' t t')
    {remaining iteration : Nat} {position : HistoryPosition} {context : Context} {exit : LoopExit}
    {log : List Effect}
    (h : (engine.runIterations names (engine.eval node) untilGuard t remaining iteration position
      context).Returns exit log) (hmode : mode = .probe ∨ ¬ ExitLate c' exit) :
    (engine.runIterations names (engine.eval node) untilGuard t' remaining iteration position
      context).FailsOnly (ReportFailure mode) := by
  induction remaining generalizing iteration position context log with
  | zero => exact .pure _
  | succ remaining ihremaining =>
    have hsyncBody := hsync.iteration iteration iteration
    have hcontext : iterationContext names t context = iterationContext names t' context := by
      rw [iterationContext, iterationContext, hsync.mapIndices]
    rw [runIterations]
    change FailsOnly _ (engine.eval node (iterationContext names t' context)
      (iterationTraversal t' iteration) >>= _)
    obtain ⟨p, e, first, second, hbody, -, hrest⟩ | ⟨s, e, hbody, hstops, hexit⟩ :=
      runIterations_succ h
    · rw [hcontext] at hbody
      have hknown : mode = .probe ∨ ¬ Late c' (.continuing p) := by
        refine hmode.imp_right fun hnot hlate => hnot ?_
        have hlt : c' < max position p :=
          (late_continuing.mp hlate).trans_le (le_max_right _ _)
        obtain ⟨-, rfl, -⟩ | ⟨-, hrest⟩ := hrest
        · exact hlt
        · exact runIterations_late hlt hrest
      refine (ih _ _ _ hsyncBody _ _ hbody hknown).bind fun r' log' hr' => ?_
      obtain ⟨s', e'⟩ := r'
      obtain ⟨-, hsame⟩ | ⟨-, hpending⟩ :=
        eval_same_or_pending hfamily node hle hsyncBody hbody hr'
      · cases hsame
        dsimp only
        rw [hsync.mapIndices] at hrest
        obtain ⟨hconverged, -⟩ | ⟨hopen, hrest⟩ := hrest
        · rw [if_pos hconverged]
          exact .pure _
        · rw [if_neg (by rw [hopen]; decide)]
          exact ihremaining hrest
      · cases hpending
        exact .pure _
    · rw [hcontext] at hbody
      have hknown : mode = .probe ∨ ¬ Late c' s := by
        refine hmode.imp_right fun hnot hlate => hnot ?_
        rw [hexit]
        exact late_after hlate
      refine (ih _ _ _ hsyncBody _ _ hbody hknown).bind fun r' log' hr' => ?_
      obtain ⟨s', e'⟩ := r'
      have hstops' : s'.Stops := by
        obtain ⟨-, hsame⟩ | ⟨-, hpending⟩ :=
          eval_same_or_pending hfamily node hle hsyncBody hbody hr'
        · cases hsame
          exact hstops
        · cases hpending
          exact Status.stops_pending
      cases s' with
      | continuing p => exact absurd rfl (hstops' p)
      | pending => exact .pure _
      | terminal p r => exact .pure _

theorem loop_follows {mode : EvalMode} {c c' : HistoryPosition} (hle : c' ≤ c) {group : Group}
    {node : GraphNode} {untilGuard : Option Guard} {maxIterations : PositiveInteger}
    {maxIterationsInput : Option FieldPath} (ih : Follows mode c c' (engine.eval node)) :
    Follows mode c c'
      (engine.eval (.loop group node untilGuard maxIterations maxIterationsInput)) := by
  rintro context t t' hsync ⟨status, d⟩ log h hmode
  rw [eval_loop] at h ⊢
  obtain ⟨exit, first, second, hrun, hclose, -⟩ := evalLoop_returns h
  have hexit : mode = .probe ∨ ¬ ExitLate c' exit :=
    hmode.imp_right fun hnot hlate => hnot (late_of_closeLoop hlate hclose)
  refine (runIterations_follows hfamily hle ih hsync hrun hexit).bind fun exit' log' hrun' => ?_
  have htied := runIterations_tied (hfamily.config rfl rfl)
    (eval_tied_any hfamily node rfl rfl trivial (.inr ⟨hle, le_rfl⟩) .probe mode) hsync
    (Nat.zero_le _) hrun hrun'
  cases exit' with
  | stopped status' => exact .pure _
  | completed local' position label =>
    have hwithin : ExitWithin c' (.completed local' position label) := by
      refine runIterations_within ?_ (Nat.zero_le _) hrun'
      intro iteration context' status' e' log'' hbody
      refine eval_within (hfamily.config rfl rfl).native node ?_ hbody
      exact hsync.cutoff' ▸ leafBound_cutoff t'.cutoff
    obtain ⟨hfalse, -⟩ | ⟨-, hlate⟩ | rfl := htied
    · exact hfalse.elim
    · exact absurd hlate (not_lt.mpr hwithin)
    rw [closeLoop, except_bind_eq_ok, hsync.mapIndices] at hclose
    obtain ⟨promoted, hpromoted, -⟩ := hclose
    refine (promote_failsOnly hpromoted t').bind fun _ _ _ => ?_
    exact (continueDecision_failsOnly _ _).bind fun _ _ _ => .pure _

/-! ### Races -/

theorem joinParallelWinners_follows {mode : EvalMode} {position : HistoryPosition}
    {nodes : List GraphNode} (ih : ∀ n ∈ nodes, Follows mode position position (engine.eval n))
    {t t' : Traversal} (hsync : Sync .probe mode position position t t') {group : Group}
    {context joined joined' : Context} {winners : List Nat} {log : List Effect}
    (h : (joinParallelWinners group (nodes.map engine.child) context t winners joined).Returns
      joined' log) :
    (joinParallelWinners group (nodes.map engine.child) context t' winners joined).FailsOnly
      (ReportFailure mode) := by
  induction winners generalizing joined log with
  | nil => exact .pure _
  | cons index winners ihwinners =>
    simp only [joinParallelWinners] at h ⊢
    cases hbranch : (nodes.map engine.child)[index]? with
    | none =>
      rw [hbranch] at h
      exact (returns_fail.mp h).elim
    | some branch =>
      obtain ⟨node, hnode, rfl⟩ := List.mem_map.mp (List.mem_of_getElem? hbranch)
      rw [hbranch] at h
      dsimp only at h ⊢
      rw [returns_bind] at h
      obtain ⟨⟨status, local'⟩, first, second, hrun, h, -⟩ := h
      cases status with
      | pending => exact (returns_fail.mp h).elim
      | terminal p r => exact (returns_fail.mp h).elim
      | continuing p =>
        -- The winner completes within the cutoff of its second evaluation.
        have hwithin : Within position (.continuing p) := by
          refine eval_within (hfamily.config rfl rfl).native node ?_ hrun
          exact hsync.cutoff ▸ leafBound_cutoff t.cutoff
        have hknown : ¬ Late position (.continuing p) :=
          not_late_of_within hwithin le_rfl (by simp)
        refine (ih node hnode _ _ _ hsync _ _ hrun (.inr hknown)).bind fun r' log' hr' => ?_
        obtain ⟨-, rfl⟩ | ⟨hlate, -⟩ :=
          eval_same_or_pending hfamily node le_rfl hsync hrun hr'
        · dsimp only at h ⊢
          rw [returns_bind] at h
          obtain ⟨copied, _, _, hcopied, h, -⟩ := h
          rw [hsync.mapIndices] at h
          exact .bind_ok (returns_lift.mp hcopied).1 (ihwinners h)
        · exact absurd hlate hknown

omit hfamily in
/-- The probes up to the earlier cutoff do not fail. -/
theorem probeParallel_follows {mode : EvalMode} {c c' : HistoryPosition} {nodes : List GraphNode}
    (ih : ∀ n ∈ nodes, Follows .probe c c' (engine.eval n)) {t t' : Traversal}
    (hsync : Sync .probe mode c c' t t') {context : Context} {probes : List (Status × Context)}
    {plog : List Effect}
    (h : (probeParallel (nodes.map engine.child) context t).Returns probes plog) :
    (probeParallel (nodes.map engine.child) context t').FailsOnly (ReportFailure mode) := by
  refine .forEach fun branch hbranch => ?_
  obtain ⟨k, hk⟩ := List.getElem?_of_mem hbranch
  obtain ⟨probe, inner, -, hrun, -⟩ := forEach_get h hk
  obtain ⟨node, hnode, rfl⟩ := List.mem_map.mp hbranch
  refine (ih node hnode _ _ _ hsync.probing _ _ hrun (.inl rfl)).mono ?_
  rintro e ⟨hfalse, -⟩
  cases hfalse

theorem parallel_follows {mode : EvalMode} {c c' : HistoryPosition} (hle : c' ≤ c) {group : Group}
    {join : Join} {nodes : List GraphNode} {optional : OrdSet FieldPath}
    (hoptional : engine.optionalPathsOf group.name = .ok optional)
    (ihprobe : ∀ n ∈ nodes, Follows .probe c c' (engine.eval n))
    (ih : ∀ n ∈ nodes, ∀ position, Follows mode position position (engine.eval n)) :
    Follows mode c c' (engine.eval (.par group nodes join)) := by
  have hconfig := hfamily.config (rfl : engine = engine) rfl
  rintro context t₀ t₀' hsync₀ ⟨status, d⟩ log h hmode
  rw [eval_par] at h ⊢
  have hsync := hsync₀.group group.name
  generalize enterGroup group.name t₀ = t at h hsync
  generalize enterGroup group.name t₀' = t' at hsync
  obtain ⟨probes, plog, hprobes, hrun⟩ := evalParallel_returns h
  refine (probeParallel_follows ihprobe hsync hprobes).bind fun probes' plog' hprobes' => ?_
  have hknown : probes.map (known c') = probes'.map (known c') := by
    refine probes_known_eq (fun n _ => ?_) hsync hprobes hprobes'
    exact eval_tied_any hfamily n rfl rfl trivial (.inr ⟨hle, le_rfl⟩) .probe .probe
  have hlength : probes'.length = probes.length := by
    have := congrArg List.length hknown
    rwa [List.length_map, List.length_map, eq_comm] at this
  have hwithin' : ∀ probe ∈ probes', Within c' probe.1 := by
    intro probe hmem
    obtain ⟨k, hk⟩ := List.getElem?_of_mem hmem
    obtain ⟨branch, inner, hbranch, hinner, -⟩ := forEach_get_result hprobes' hk
    obtain ⟨node, -, rfl⟩ := List.mem_map.mp (List.mem_of_getElem? hbranch)
    exact eval_within hconfig.native node (hsync.cutoff' ▸ leafBound_cutoff t'.cutoff) hinner
  -- Up to the earlier cutoff every completion is early, so they are the early ones of the probe.
  have hearly : (engine.parallelCompletions join t'.mapIndices 0 probes).filter
      (fun e => e.2 ≤ c') = engine.parallelCompletions join t'.mapIndices 0 probes' := by
    rw [earlyCompletions_eq hknown, List.filter_eq_self.mpr]
    rintro ⟨i, p⟩ hmem
    obtain ⟨k, e, -, hk, -⟩ := mem_parallelCompletions.mp hmem
    exact decide_eq_true (hwithin' _ (List.mem_of_getElem? hk) (by simp))
  dsimp only
  split
  case isTrue hfew =>
    unfold unreachedParallelJoin
    split
    case isFalse => exact (continueDecision_failsOnly _ _).bind fun _ _ _ => .pure _
    case isTrue hopen =>
      cases hmode' : t'.mode with
      | probe => exact .pure _
      | decide =>
        -- A decision is only asked for when the race is known by then, and this one is not.
        have hdecide : mode = .decide := hsync.mode'.symm.trans hmode'
        have hlate' : ∃ probe ∈ probes', Late c' probe.1 := by
          obtain ⟨probe, hprobe, hpending⟩ := List.any_eq_true.mp hopen
          exact ⟨probe, hprobe, .inl (by simpa using hpending)⟩
        have hlate := exists_late_of_known_map_eq hknown.symm hlate'
        obtain ⟨bound, hmax, hbound⟩ := hfamily.bounded
        have hwithin : ∀ probe ∈ probes, Within bound probe.1 := by
          intro probe hmem
          obtain ⟨k, hk⟩ := List.getElem?_of_mem hmem
          obtain ⟨branch, inner, hbranch, hinner, -⟩ := forEach_get_result hprobes hk
          obtain ⟨node, -, rfl⟩ := List.mem_map.mp (List.mem_of_getElem? hbranch)
          exact eval_within hconfig.native node (hbound rfl _) hinner
        have hfew' : ((engine.parallelCompletions join t.mapIndices 0 probes).filter
            fun e => e.2 ≤ c').length < parallelJoinRequired join probes.length := by
          rwa [hsync.mapIndices, hearly, ← hlength]
        rcases hmode with hprobe | hnot
        · cases hdecide.symm.trans hprobe
        · exact absurd (hrun.late hmax hwithin hfew' hlate) hnot
  case isFalse hmany =>
    rw [not_lt] at hmany
    have hmany' : parallelJoinRequired join probes.length ≤
        ((engine.parallelCompletions join t.mapIndices 0 probes).filter
          fun e => e.2 ≤ c').length := by
      rwa [hsync.mapIndices, hearly, ← hlength]
    obtain ⟨hwinners, -, hreached, -⟩ := winners_eq hconfig hknown hmany'
    rw [← not_lt] at hreached
    cases hrun with
    | opened _ hfew => exact absurd hfew hreached
    | unreachable _ hfew => exact absurd hfew hreached
    | reached position joined wlog first last _ hposition hjoin =>
      have hsame : engine.winnersOf join t.mapIndices probes =
          engine.winnersOf join t'.mapIndices probes' := by
        rw [hwinners, hsync.mapIndices]
      rw [hsame] at hposition hjoin
      have hagain := joinParallelWinners_follows hfamily (fun n hn => ih n hn position)
        (hsync.withCutoff position position) hjoin
      rw [hposition] at hagain
      refine hagain.bind fun joined' wlog' _ => ?_
      rw [← hsync.mode']
      refine (emitParallelPromotion_failsOnly hoptional _ _).bind fun _ _ _ => ?_
      refine (FailsOnly.emit _).bind fun _ _ _ => ?_
      split
      · refine (FailsOnly.emitAll _).bind fun _ _ _ => ?_
        exact (continueDecision_failsOnly _ _).bind fun _ _ _ => .pure _
      · exact (continueDecision_failsOnly _ _).bind fun _ _ _ => .pure _

/-! ### Maps -/

omit hfamily in
theorem Sync.ofItem {m m' : EvalMode} {c c' : HistoryPosition} {t t' : Traversal}
    (h : Sync m m' c c' t t') (item : Value × Nat) :
    Sync m m' c c' (itemTraversal t item) (itemTraversal t' item) := by
  refine ⟨?_, rfl, h.mode, h.mode', h.cutoff, h.cutoff'⟩
  rw [itemTraversal, itemTraversal, h.mapIndices]

omit hfamily in
theorem evaluateMapItems_follows {mode : EvalMode} {c c' : HistoryPosition} {node : GraphNode}
    (ih : Follows mode c c' (engine.eval node)) {t t' : Traversal}
    (hsync : Sync .probe mode c c' t t') {context : Context} {items : List Value}
    {results : List MapItemResult} {log : List Effect}
    (h : (evaluateMapItems (engine.eval node) context t items).Returns results log)
    (hmode : ∀ r ∈ results, mode = .probe ∨ ¬ Late c' r.status) :
    (evaluateMapItems (engine.eval node) context t' items).FailsOnly (ReportFailure mode) := by
  refine .forEach fun item hitem => ?_
  obtain ⟨k, hk⟩ := List.getElem?_of_mem hitem
  obtain ⟨result, inner, hresult, hrun, -⟩ := forEach_get h hk
  obtain ⟨-, hrun⟩ := itemRun_of_returns hrun
  refine (ih _ _ _ (hsync.ofItem item) _ _ hrun (hmode result ?_)).bind fun _ _ _ => .pure _
  exact List.mem_of_getElem? hresult

/-- Up to an earlier cutoff an item is evaluated alike or is pending. -/
theorem items_same_or_pending {mode : EvalMode} {c c' : HistoryPosition} (hle : c' ≤ c)
    {node : GraphNode} {t t' : Traversal} (hsync : Sync .probe mode c c' t t') {context : Context}
    {items : List Value} {results results' : List MapItemResult} {log log' : List Effect}
    (h : (evaluateMapItems (engine.eval node) context t items).Returns results log)
    (h' : (evaluateMapItems (engine.eval node) context t' items).Returns results' log') {k : Nat}
    {r r' : MapItemResult} (hr : results[k]? = some r) (hr' : results'[k]? = some r') :
    ¬ Late c' r.status ∧ r' = r ∨ Late c' r.status ∧ r'.status = .pending := by
  obtain ⟨item, inner, hitem, ⟨hscope, hrun⟩, -⟩ := evaluateMapItems_get_result h hr
  obtain ⟨item', inner', hitem', ⟨hscope', hrun'⟩, -⟩ := evaluateMapItems_get_result h' hr'
  rw [hitem] at hitem'
  cases hitem'
  obtain ⟨hearly, hsame⟩ | hpending :=
    eval_same_or_pending hfamily node hle (hsync.ofItem (item, k)) hrun hrun'
  · left
    refine ⟨hearly, ?_⟩
    obtain ⟨hstatus, hcontext⟩ := Prod.mk.inj hsame
    cases r
    cases r'
    simp only at hstatus hcontext hscope hscope'
    rw [hstatus, hcontext, hscope, hscope', hsync.mapIndices]
  · exact .inr hpending

/-- Results none of which is pending up to the earlier cutoff are the results of the probe. -/
theorem items_same {mode : EvalMode} {c c' : HistoryPosition} (hle : c' ≤ c) {node : GraphNode}
    {t t' : Traversal} (hsync : Sync .probe mode c c' t t') {context : Context}
    {items : List Value} {results results' : List MapItemResult} {log log' : List Effect}
    (h : (evaluateMapItems (engine.eval node) context t items).Returns results log)
    (h' : (evaluateMapItems (engine.eval node) context t' items).Returns results' log')
    (hsettled : ∀ r ∈ results', r.status ≠ .pending) : results' = results := by
  have hlength : results'.length = results.length := by
    rw [evaluateMapItems_length h', evaluateMapItems_length h]
  refine List.ext_getElem hlength fun k hk hk' => ?_
  obtain ⟨-, hsame⟩ | ⟨-, hpending⟩ := items_same_or_pending hfamily hle hsync h h'
    (List.getElem?_eq_getElem hk') (List.getElem?_eq_getElem hk)
  · exact hsame
  · exact absurd hpending (hsettled _ (List.getElem_mem hk))

omit hfamily in
/-- A map closes without a failure when it is open or its items can be collected. -/
theorem settleMap_failsOnly {allowed : ReducerError → Prop} {group : Group} {body : Child}
    {results : List MapItemResult} {context : Context} {t : Traversal}
    (h : (∀ r ∈ results, r.status ≠ .pending) →
      ∃ c, engine.closeMap group body.node t.mapIndices results context = .ok c) :
    (engine.settleMap group body results context t).FailsOnly allowed := by
  unfold settleMap
  split
  · exact .pure _
  · rename_i hsettled
    obtain ⟨c, hclose⟩ := h fun r hr hpending =>
      hsettled (List.any_eq_true.mpr ⟨r, hr, by simp [hpending]⟩)
    rw [closeMap, except_bind_eq_ok] at hclose
    obtain ⟨collected, hcollected, hclose⟩ := hclose
    rw [except_bind_eq_ok] at hclose
    obtain ⟨promoted, hpromoted, -⟩ := hclose
    unfold finishMap
    refine .bind_ok hcollected ?_
    refine (promote_failsOnly hpromoted t).bind fun _ _ _ => ?_
    exact (continueDecision_failsOnly _ _).bind fun _ _ _ => .pure _

omit hfamily in
/-- A probed map without a terminal or pending item closes. -/
theorem Engine.MapRun.closes {group : Group} {body : Child} {context d : Context} {t : Traversal}
    {items : List Value} {probes : List MapItemResult} {plog log : List Effect} {status : Status}
    (hmode : t.mode = .probe) (hnone : earliestTerminal 0 probes = none)
    (hsettled : ∀ r ∈ probes, r.status ≠ .pending)
    (h : MapRun engine group body context t items probes plog status d log) :
    engine.closeMap group body.node t.mapIndices probes context = .ok d := by
  have hprobes : ∀ {results : List MapItemResult} {rlog : List Effect},
      t.mode = .probe ∧ results = probes ∧ rlog = [] ∨ t.mode = .decide ∧
        (evaluateMapItems body.run context t items).Returns results rlog → results = probes := by
    rintro results rlog (⟨-, hsame, -⟩ | ⟨hdecide, -⟩)
    · exact hsame
    · cases hmode.symm.trans hdecide
  cases h with
  | terminal index found item _ dlog hfound =>
    rw [hnone] at hfound
    cases hfound
  | pending results rlog _ hresults hpending =>
    obtain ⟨r, hr, hpending⟩ := hpending
    rw [hprobes hresults] at hr
    exact absurd hpending (hsettled r hr)
  | finished results rlog dlog _ _ hresults _ hclose =>
    rw [hprobes hresults] at hclose
    exact hclose

theorem map_follows {mode : EvalMode} {c c' : HistoryPosition} (hle : c' ≤ c) {group : Group}
    {node : GraphNode} {overItems : DataSelector} {maxItems : PositiveInteger}
    (ihprobe : Follows .probe c c' (engine.eval node)) (ih : Follows mode c c' (engine.eval node))
    (ihterminal : ∀ p ≤ c', Follows mode c' p (engine.eval node)) :
    Follows mode c c' (engine.eval (.map group node overItems maxItems)) := by
  have hnative := (hfamily.config (rfl : engine = engine) rfl).native
  rintro context t₀ t₀' hsync₀ ⟨status, d⟩ log h hmode
  rw [eval_map] at h ⊢
  have hsync := hsync₀.group group.name
  generalize enterGroup group.name t₀ = t at h hsync
  generalize enterGroup group.name t₀' = t' at hsync
  obtain ⟨selected, items, hselected, hitems, hrun⟩ := evalMap_returns h
  rw [hsync.item] at hselected
  refine .bind_ok hselected ?_
  rw [hitems]
  dsimp only
  obtain ⟨hmany, -⟩ | ⟨hfit, probes, plog, hprobes, hrun⟩ := hrun
  · rw [if_pos hmany]
    exact (continueDecision_failsOnly _ _).bind fun _ _ _ => .pure _
  rw [if_neg (Nat.not_lt.mpr hfit)]
  have hnever : ∀ e, ReportFailure .probe e → ReportFailure mode e := by
    rintro e ⟨hfalse, -⟩
    cases hfalse
  refine ((evaluateMapItems_follows ihprobe hsync.probing hprobes
    fun _ _ => .inl rfl).mono hnever).bind fun probes' plog' hprobes' => ?_
  cases hfound : earliestTerminal 0 probes' with
  | some pair =>
    obtain ⟨index, found⟩ := pair
    obtain ⟨r', hr', rfl, hterminal⟩ := found_mem hfound
    obtain ⟨item, inner, hitem, ⟨-, hprobe⟩, -⟩ := evaluateMapItems_get_result hprobes' hr'
    dsimp only
    unfold finishTerminalMapItem
    rw [hitem]
    dsimp only
    cases hmode' : t'.mode with
    | probe =>
      refine (FailsOnly.pure _).bind fun _ _ _ => ?_
      exact (FailsOnly.emit _).bind fun _ _ _ => (FailsOnly.emit _).bind fun _ _ _ => .pure _
    | decide =>
      have hne : r'.status ≠ .pending := Status.ne_pending hterminal
      have hposition : r'.status.position ≤ c' := by
        refine eval_within hnative node ?_ hprobe hne
        exact hsync.cutoff' ▸ leafBound_cutoff t'.cutoff
      have hknown : ¬ Late r'.status.position r'.status := by
        rintro (hpending | hlt)
        · exact hne hpending
        · exact lt_irrefl _ hlt
      -- The item is decided up to its own position, from a context whose writes are not cleared.
      have hscope : Sync .probe mode c' r'.status.position
          (itemTraversal { t' with mode := .probe } (item, index))
          (terminalTraversal t' (item, index) r'.status.position) :=
        ⟨rfl, rfl, rfl, hsync.mode', hsync.cutoff', rfl⟩
      have hagain := (eval_clearWrites node context
        (terminalTraversal t' (item, index) r'.status.position)).failsOnly
          (ihterminal _ hposition _ _ _ hscope _ _ hprobe (.inr hknown))
      unfold terminalTraversal at hagain
      rw [hmode'] at hagain
      refine hagain.bind fun r _ _ => (FailsOnly.pure r.1).bind fun _ _ _ => ?_
      exact (FailsOnly.emit _).bind fun _ _ _ => (FailsOnly.emit _).bind fun _ _ _ => .pure _
  | none =>
    dsimp only
    cases hmode' : t'.mode with
    | probe =>
      refine settleMap_failsOnly fun hsettled => ?_
      obtain rfl := items_same hfamily hle hsync.probing hprobes hprobes' hsettled
      exact ⟨d, hsync.mapIndices ▸ hrun.closes hsync.mode hfound hsettled⟩
    | decide =>
      have hdecide : mode = .decide := hsync.mode'.symm.trans hmode'
      have hknown : ¬ Late c' status := hmode.resolve_left fun hprobe => by
        cases hdecide.symm.trans hprobe
      have hlength : probes.length = probes'.length := by
        rw [evaluateMapItems_length hprobes, evaluateMapItems_length hprobes']
      -- A map known by the earlier cutoff has no terminal item by then, so all its items continue.
      have hitem : ∀ (k : Nat) (r r' : MapItemResult), probes[k]? = some r →
          probes'[k]? = some r' →
          ¬ Late c' r.status ∧ r' = r ∨ Late c' r.status ∧ r'.status = .pending := by
        intro k r r' hr hr'
        exact items_same_or_pending hfamily hle hsync.probing hprobes hprobes' hr hr'
      have hpairs : ∀ (k : Nat) (r r' : MapItemResult), probes[k]? = some r →
          probes'[k]? = some r' → known c' r.pair = known c' r'.pair := by
        intro k r r' hr hr'
        obtain ⟨-, rfl⟩ | ⟨hlate, hpending⟩ := hitem k r r' hr hr'
        · rfl
        · rw [known_of_late hlate, known_of_late (.inl hpending)]
      have hall : ∀ r ∈ probes, ¬ Late c' r.status := by
        cases hrun with
        | terminal index found item _ dlog hfound₀ _ hdecided =>
          obtain ⟨-, rfl, -⟩ | ⟨hmode₀, -⟩ := hdecided
          · rw [earliestTerminal_known hlength hpairs hfound₀ hknown] at hfound
            cases hfound
          · cases hsync.mode.symm.trans hmode₀
        | pending => exact absurd late_pending hknown
        | finished results rlog dlog _ _ hresults hsettled =>
          obtain ⟨-, rfl, -⟩ | ⟨hmode₀, -⟩ := hresults
          · rintro r hr (hpending | hlt)
            · exact hsettled r hr hpending
            · exact hknown (.inr (hlt.trans_le (le_latest (List.mem_map_of_mem hr))))
          · cases hsync.mode.symm.trans hmode₀
      have hsame : probes' = probes := by
        refine List.ext_getElem hlength.symm fun k hk hk' => ?_
        obtain ⟨-, hsame⟩ | ⟨hlate, -⟩ := hitem k _ _ (List.getElem?_eq_getElem hk')
          (List.getElem?_eq_getElem hk)
        · exact hsame
        · exact absurd hlate (hall _ (List.getElem_mem hk'))
      have hscope : Sync .probe mode c c' { t with mode := .probe } t' :=
        ⟨hsync.mapIndices, hsync.item, rfl, hsync.mode', hsync.cutoff, hsync.cutoff'⟩
      have hagain := evaluateMapItems_follows ih hscope hprobes fun r hr => .inr (hall r hr)
      refine hagain.bind fun results rlog hresults => ?_
      refine settleMap_failsOnly fun hsettled => ?_
      obtain rfl := items_same hfamily hle hscope hprobes hresults hsettled
      subst hsame
      exact ⟨d, hsync.mapIndices ▸ hrun.closes hsync.mode hfound hsettled⟩

/-- **A probe is followed.** Up to an earlier cutoff a node is evaluated without a failure, in a
probe always, in a decision when the result is known by then and its promoted values are there. -/
theorem eval_follows (node : GraphNode) : engine.Knows node → ∀ {mode : EvalMode}
    {c c' : HistoryPosition}, c' ≤ c → Follows mode c c' (engine.eval node) := by
  have hchild : ∀ {node child : GraphNode}, engine.Knows node → child ∈ node.children →
      engine.Knows child := fun hknows hmem group branches join hpar =>
    hknows group branches join (by
      rw [GraphNode.descendants_eq]
      exact List.mem_cons_of_mem _ (List.mem_flatMap.mpr ⟨_, hmem, hpar⟩))
  induction node using GraphNode.induct with
  | step node => exact fun _ {mode c c'} hle => executable_follows hfamily _ hle
  | verifier node => exact fun _ {mode c c'} hle => executable_follows hfamily _ hle
  | seq group children ih =>
    intro hknows mode c c' hle
    exact sequence_follows hfamily hle fun n hn => ih n hn (hchild hknows hn) hle
  | choice group branches otherwise ihbranches ihotherwise =>
    intro hknows mode c c' hle
    refine choice_follows hfamily hle (fun b hb => ?_) fun n hn => ?_
    · refine ihbranches b hb (hchild hknows ?_) hle
      exact List.mem_append_left _ (List.mem_map_of_mem hb)
    · refine ihotherwise n hn (hchild hknows ?_) hle
      exact List.mem_append_right _ (Option.mem_toList.mpr hn)
  | par group branches join ih =>
    intro hknows mode c c' hle
    obtain ⟨optional, hoptional⟩ := hknows group branches join (by
      rw [GraphNode.descendants_eq]
      exact List.mem_cons_self)
    exact parallel_follows hfamily hle hoptional
      (fun n hn => ih n hn (hchild hknows hn) hle)
      fun n hn position => ih n hn (hchild hknows hn) le_rfl
  | loop group body untilGuard maxIterations maxIterationsInput ih =>
    intro hknows mode c c' hle
    exact loop_follows hfamily hle (ih (hchild hknows List.mem_cons_self) hle)
  | map group body overItems maxItems ih =>
    intro hknows mode c c' hle
    have hbody : engine.Knows body := hchild hknows List.mem_cons_self
    exact map_follows hfamily hle (ih hbody hle) (ih hbody hle) fun p hp => ih hbody hp
  | succeed node =>
    rintro - mode c c' hle context t t' hsync ⟨status, d⟩ log h -
    obtain ⟨output, houtput, -⟩ := evalSucceed_returns h
    rw [hsync.item] at houtput
    exact .bind_ok houtput (.pure _)
  | fail node =>
    rintro - mode c c' hle context t t' hsync ⟨status, d⟩ log h -
    exact .pure _

end

end Zeroshot
