import Zeroshot.Reducer.Freshness

set_option autoImplicit false

/-!
# What an evaluation logs under which traversal

`eval_entries` bounds what an evaluation can log by what its traversals allow, also when it fails.
Two bounds follow from it.

* A probe logs no dispatch and no report (`probe_silent`).
* Below a parallel or map visit every dispatch has the boundary of the outermost such visit
  (`dispatch_boundary`), so the dispatches of one evaluation share their boundary
  (`eval_shares`).
-/

namespace Zeroshot

open Logged

namespace Engine

/-- What traversals of a kind allow to be logged. The kind is closed under the traversals of
children. -/
structure Allows (kind : Traversal → Prop) (P : Effect → Prop) : Prop where
  probe : ∀ {t}, kind t → kind { t with mode := .probe }
  cutoff : ∀ {t} (cutoff : HistoryPosition), kind t → kind { t with cutoff }
  scope : ∀ {t} (mapIndices : List Nat) (item : Option Value), kind t →
    kind { t with mapIndices, item }
  iteration : ∀ {t} (loopIterations : List Nat), kind t → kind { t with loopIterations }
  enter : ∀ {t} (name : NodeName), kind t → kind (enterGroup name t)
  visit : ∀ v, P (.visit v)
  joined : ∀ record, P (.joined record)
  itemTerminated : ∀ record, P (.itemTerminated record)
  own : ∀ {t}, kind t → Own P t

section

variable {engine : Engine} {kind : Traversal → Prop} {P : Effect → Prop} (hallows : Allows kind P)
  {t : Traversal} (ht : kind t)
include hallows ht

theorem evalExecutable_entries (spec : ExecutableSpec) (context : Context) :
    Entries P (engine.evalExecutable spec context t) := by
  refine .bind (.lift _) fun resolution => ?_
  cases resolution with
  | exhausted => exact .pure _
  | ready visit =>
    refine .bind (.lift _) fun input => ?_
    split
    · exact .fail _
    refine .bind (.emit (hallows.visit _)) fun _ => ?_
    dsimp only
    split
    · exact .bind (dispatchMissing_entries (hallows.own ht) spec visit input) fun _ => .pure _
    · exact finishExistingExecution_entries (hallows.own ht) spec _ input _

omit hallows ht in
theorem runChildren_entries {children : List Evaluator}
    (hchildren : ∀ child ∈ children, ∀ context, Entries P (child context t))
    (position : HistoryPosition) (context : Context) :
    Entries P (runChildren children position context t) := by
  induction children generalizing position context with
  | nil => exact .pure _
  | cons child rest ih =>
    rw [List.forall_mem_cons] at hchildren
    refine .bind (hchildren.1 context) fun (status, local') => ?_
    cases status with
    | continuing p => exact ih hchildren.2 _ local'
    | pending => exact .pure _
    | terminal p r => exact .pure _

theorem evalSequence_entries {children : List Evaluator}
    (hchildren : ∀ child ∈ children, ∀ context, Entries P (child context t)) (group : Group)
    (context : Context) : Entries P (engine.evalSequence group children context t) := by
  refine .bind (runChildren_entries hchildren _ _) fun (status, local') => ?_
  cases status with
  | continuing p =>
    exact close_entries (hallows.own ht).decision _ _ _ _ _
  | pending => exact .pure _
  | terminal p r => exact .pure _

theorem evalChoice_entries {branches : List (Guard × Evaluator)} {otherwise : Option Evaluator}
    (hselected : ∀ context mapIndices selected,
      engine.selectBranch context mapIndices branches otherwise = some selected →
        ∀ context, Entries P (selected context t)) (group : Group) (context : Context) :
    Entries P (engine.evalChoice group branches otherwise context t) := by
  unfold evalChoice
  split
  · exact .fail _
  · rename_i selected hbranch
    refine .bind (hselected _ _ selected hbranch _) fun (status, local') => ?_
    cases status with
    | continuing p =>
      exact close_entries (hallows.own ht).decision _ _ _ _ _
    | pending => exact .pure _
    | terminal p r => exact .pure _

theorem runIterations_entries {body : Evaluator}
    (hbody : ∀ t, kind t → ∀ context, Entries P (body context t)) (names : List NodeName)
    (untilGuard : Option Guard) (remaining iteration : Nat) (position : HistoryPosition)
    (context : Context) :
    Entries P (engine.runIterations names body untilGuard t remaining iteration position
      context) := by
  induction remaining generalizing iteration position context with
  | zero => exact .pure _
  | succ remaining ih =>
    refine .bind (hbody _ (hallows.iteration _ ht) _) fun (status, local') => ?_
    cases status with
    | continuing p =>
      dsimp only
      split
      · exact .pure _
      · exact ih _ _ local'
    | pending => exact .pure _
    | terminal p r => exact .pure _

theorem evalLoop_entries {body : Child}
    (hbody : ∀ t, kind t → ∀ context, Entries P (body.run context t)) (group : Group)
    (untilGuard : Option Guard) (maxIterations : PositiveInteger) (context : Context) :
    Entries P (engine.evalLoop group body untilGuard maxIterations context t) := by
  refine .bind (runIterations_entries hallows ht hbody _ _ _ _ _ _) fun exit => ?_
  cases exit with
  | stopped status => exact .pure _
  | completed local' position label =>
    exact close_entries (hallows.own ht).decision _ _ _ _ _

omit hallows in
theorem joinParallelWinners_entries {branches : List Child}
    (hbranches : ∀ branch ∈ branches, ∀ t, kind t → ∀ context, Entries P (branch.run context t))
    (group : Group) (context : Context) (winners : List Nat) (joined : Context) :
    Entries P (joinParallelWinners group branches context t winners joined) := by
  induction winners generalizing joined with
  | nil => exact .pure _
  | cons index winners ih =>
    unfold joinParallelWinners
    split
    · exact .fail _
    · rename_i branch hbranch
      refine .bind (hbranches branch (List.mem_of_getElem? hbranch) t ht _)
        fun (status, local') => ?_
      cases status with
      | continuing p => exact .bind (.lift _) fun joined => ih _
      | pending => exact .fail _
      | terminal p r => exact .fail _

theorem evalParallel_entries {branches : List Child}
    (hbranches : ∀ branch ∈ branches, ∀ t, kind t → ∀ context, Entries P (branch.run context t))
    (group : Group) (join : Join) (context : Context) :
    Entries P (engine.evalParallel group join branches context t) := by
  refine .bind ?_ fun probes => ?_
  · exact .forEach fun branch hbranch => hbranches branch hbranch _ (hallows.probe ht) _
  · dsimp only
    split
    · unfold unreachedParallelJoin
      split
      · cases hmode : t.mode with
        | decide =>
          exact .bind (.forEach fun branch hbranch => hbranches branch hbranch t ht _) fun _ =>
            .pure _
        | probe => exact .pure _
      · exact .bind (continueDecision_entries (hallows.own ht).decision _) fun _ => .pure _
    · exact .bind (joinParallelWinners_entries (hallows.cutoff _ ht) hbranches _ _ _ _)
        fun joined => finishParallelJoin_entries (hallows.own ht) _ _ _ _ _ _ _ _
          (hallows.joined _)

theorem evaluateMapItems_entries {body : Evaluator}
    (hbody : ∀ t, kind t → ∀ context, Entries P (body context t)) (context : Context)
    (items : List Value) : Entries P (evaluateMapItems body context t items) := by
  refine .forEach fun item _ => .bind (hbody _ (hallows.scope _ _ ht) _) fun (status, c) => ?_
  exact .pure _

theorem evalMap_entries {body : Child}
    (hbody : ∀ t, kind t → ∀ context, Entries P (body.run context t)) (group : Group)
    (overItems : DataSelector) (maxItems : PositiveInteger) (context : Context) :
    Entries P (engine.evalMap group overItems maxItems body context t) := by
  refine .bind (.lift _) fun selected => ?_
  split
  · exact .fail _
  split
  · exact .bind (continueDecision_entries (hallows.own ht).decision _) fun _ => .pure _
  refine .bind (evaluateMapItems_entries hallows (hallows.probe ht) hbody _ _) fun probes => ?_
  split
  · rename_i index terminal _
    unfold finishTerminalMapItem
    split
    · exact .fail _
    · rename_i item _
      cases hmode : t.mode with
      | decide =>
        refine .bind (hbody _ ?_ _) fun (status, c) =>
          terminalItem_entries (hallows.own ht) _ _ _ status _ _ (hallows.itemTerminated _)
        have hscoped := hallows.cutoff terminal.position
          (hallows.scope (t.mapIndices ++ [index]) (some item) ht)
        simpa only [hmode] using hscoped
      | probe =>
        exact terminalItem_entries (hallows.own ht) _ _ _ terminal _ _ (hallows.itemTerminated _)
  · cases hmode : t.mode with
    | probe => exact settleMap_entries (hallows.own ht) _ _ _ _
    | decide =>
      exact .bind (evaluateMapItems_entries hallows ht hbody _ _) fun results =>
        settleMap_entries (hallows.own ht) _ _ _ _

end

/-- **What an evaluation may log.** -/
theorem eval_entries {engine : Engine} {kind : Traversal → Prop} {P : Effect → Prop}
    (hallows : Allows kind P) (node : GraphNode) :
    ∀ t, kind t → ∀ context, Entries P (engine.eval node context t) := by
  induction node using GraphNode.induct with
  | step node => exact fun t ht context => evalExecutable_entries hallows ht _ _
  | verifier node => exact fun t ht context => evalExecutable_entries hallows ht _ _
  | seq group children ih =>
    intro t ht context
    rw [eval_seq]
    refine evalSequence_entries hallows ht (fun child hchild => ?_) _ _
    obtain ⟨node, hnode, rfl⟩ := List.mem_map.mp hchild
    exact ih node hnode t ht
  | choice group branches otherwise ihbranches ihotherwise =>
    intro t ht context
    rw [eval, evalBranches_eq, evalOption_eq]
    refine evalChoice_entries hallows ht (fun context mapIndices selected hselected => ?_) _ _
    rw [selectBranch_eq, Option.map_eq_some_iff] at hselected
    obtain ⟨node, hnode, rfl⟩ := hselected
    rcases selectNode_mem hnode with ⟨branch, hbranch, rfl⟩ | hother
    · exact ihbranches branch hbranch t ht
    · exact ihotherwise node hother t ht
  | par group branches join ih =>
    intro t ht context
    rw [eval_par]
    refine evalParallel_entries hallows (hallows.enter _ ht) (fun branch hbranch => ?_) _ _ _
    obtain ⟨node, hnode, rfl⟩ := List.mem_map.mp hbranch
    exact ih node hnode
  | loop group body untilGuard maxIterations maxIterationsInput ih =>
    intro t ht context
    rw [eval_loop]
    exact evalLoop_entries hallows ht ih _ _ _ _
  | map group body overItems maxItems ih =>
    intro t ht context
    rw [eval_map]
    exact evalMap_entries hallows (hallows.enter _ ht) ih _ _ _ _
  | succeed node => exact fun t ht context => .bind (.lift _) fun _ => .pure _
  | fail node => exact fun t ht context => .pure _

/-- Neither a dispatch nor a report. -/
def Silent : Effect → Prop
  | .visit _ | .void _ | .joined _ | .itemTerminated _ => True
  | .dispatch _ | .decision _ => False

/-- **Probes are silent.** Whether it succeeds or fails, an evaluation in probe mode logs no
dispatch and no report, so it allocates no identity and records no boundary. -/
theorem probe_silent {engine : Engine} (node : GraphNode) {t : Traversal} (ht : t.mode = .probe)
    (context : Context) : Entries Silent (engine.eval node context t) := by
  have hallows : Allows (fun t => t.mode = .probe) Silent :=
    { probe := fun _ => rfl
      cutoff := fun _ h => h
      scope := fun _ _ h => h
      iteration := fun _ h => h
      enter := fun _ h => h
      visit := fun _ => trivial
      joined := fun _ => trivial
      itemTerminated := fun _ => trivial
      own := fun {t} ht =>
        { void := fun _ => trivial
          decision := by
            intro hmode
            rw [ht] at hmode
            cases hmode
          dispatch := by
            intro hmay
            simp [mayDispatch, ht] at hmay } }
  exact eval_entries hallows node t ht context

/-- Only dispatches with the given boundary. -/
def Bounded (boundary : ExecutionBoundary) : Effect → Prop
  | .dispatch r => r.boundary = boundary
  | .visit _ | .void _ | .joined _ | .itemTerminated _ | .decision _ => True

/-- Below a parallel or map visit every dispatch has the boundary of that visit. -/
theorem dispatch_boundary {engine : Engine} (node : GraphNode) {boundary : ExecutionBoundary}
    {t : Traversal} (ht : t.boundary = some boundary) (context : Context) :
    Entries (Bounded boundary) (engine.eval node context t) := by
  have hallows : Allows (fun t => t.boundary = some boundary) (Bounded boundary) :=
    { probe := fun h => h
      cutoff := fun _ h => h
      scope := fun _ _ h => h
      iteration := fun _ h => h
      enter := by
        intro t name ht
        simp [enterGroup, ht]
      visit := fun _ => trivial
      joined := fun _ => trivial
      itemTerminated := fun _ => trivial
      own := fun ht =>
        { void := fun _ => trivial
          decision := fun _ _ => trivial
          dispatch := fun _ _ hr => hr boundary ht } }
  exact eval_entries hallows node t ht context

/-! ## One boundary -/

/-- All dispatches of the log have the same boundary. -/
def Shares (log : List Effect) : Prop :=
  ∀ r r', .dispatch r ∈ log → .dispatch r' ∈ log → r.boundary = r'.boundary

theorem Shares.of_noDispatch {log : List Effect} (h : NoDispatch log) : Shares log :=
  fun r _ hr _ => (h r hr).elim

theorem Shares.of_bounded {log : List Effect} {boundary : ExecutionBoundary}
    (h : ∀ w ∈ log, Bounded boundary w) : Shares log := by
  intro r r' hr hr'
  exact (h _ hr).trans (h _ hr').symm

theorem Shares.append_left {first second : List Effect} (h : Shares first)
    (hsecond : NoDispatch second) : Shares (first ++ second) := by
  intro r r' hr hr'
  rcases List.mem_append.mp hr with hr | hr
  · rcases List.mem_append.mp hr' with hr' | hr'
    · exact h r r' hr hr'
    · exact (hsecond r' hr').elim
  · exact (hsecond r hr).elim

theorem Shares.append_right {first second : List Effect} (hfirst : NoDispatch first)
    (h : Shares second) : Shares (first ++ second) := by
  intro r r' hr hr'
  rcases List.mem_append.mp hr with hr | hr
  · exact (hfirst r hr).elim
  · rcases List.mem_append.mp hr' with hr' | hr'
    · exact (hfirst r' hr').elim
    · exact h r r' hr hr'

/-- Either step may dispatch, but not both. -/
theorem Shares.bind {α β : Type} {x : Walk α} {f : α → Walk β} (hx : Shares x.log)
    (hf : ∀ a, x.Returns a x.log →
      NoDispatch x.log ∧ Shares (f a).log ∨ NoDispatch (f a).log) : Shares (x >>= f).log := by
  rcases log_bind x f with ⟨e, -, hlog⟩ | ⟨a, ha, hlog⟩
  · rw [hlog]
    exact hx
  · rw [hlog]
    rcases hf a ha with ⟨hnone, hshares⟩ | hnone
    · exact .append_right hnone hshares
    · exact .append_left hx hnone

/-- Anything but a dispatch. -/
def Undispatched (effect : Effect) : Prop := ∀ r, effect ≠ .dispatch r

theorem noDispatch_of_entries {α : Type} {x : Walk α} (h : Entries Undispatched x) :
    NoDispatch x.log := fun r hr => h _ hr r rfl

theorem decision_undispatched (d : Decision) : Undispatched (.decision d) := fun _ h => nomatch h

theorem Shares.single (effect : Effect) : Shares [effect] := by
  intro r r' hr hr'
  have h := List.mem_singleton.mp hr
  rw [← List.mem_singleton.mp hr'] at h
  cases h
  rfl

theorem Shares.nil : Shares [] := fun _ _ h => by cases h

theorem noDispatch_nil : NoDispatch [] := fun _ h => by cases h

section

variable {engine : Engine}

theorem evalExecutable_shares (spec : ExecutableSpec) (context : Context) (t : Traversal) :
    Shares (engine.evalExecutable spec context t).log := by
  refine .bind .nil fun resolution _ => .inl ⟨noDispatch_nil, ?_⟩
  cases resolution with
  | exhausted => exact .nil
  | ready visit =>
    refine .bind .nil fun input _ => .inl ⟨noDispatch_nil, ?_⟩
    split
    · exact .nil
    have hvisit : ∀ v, NoDispatch [.visit v] := fun v r h => by cases List.mem_singleton.mp h
    refine .bind (.single _) fun _ _ => .inl ⟨hvisit _, ?_⟩
    dsimp only
    split
    · refine .bind ?_ fun _ _ => .inr noDispatch_nil
      unfold dispatchMissing
      split
      · exact .single _
      · exact .nil
    · unfold finishExistingExecution
      split
      · exact .nil
      split
      · refine .bind ?_ fun _ _ => .inr noDispatch_nil
        unfold dispatchRetry
        split
        · split
          · exact .nil
          · exact .single _
        · exact .nil
      · refine .bind .nil fun applied _ => .inl ⟨noDispatch_nil, .of_noDispatch ?_⟩
        refine noDispatch_of_entries ?_
        dsimp only
        split
        · exact .bind (promoteWrites_entries (fun _ => decision_undispatched) _ _) fun _ =>
            .bind (continueDecision_entries (fun _ => decision_undispatched) _) fun _ => .pure _
        · exact .bind (continueDecision_entries (fun _ => decision_undispatched) _) fun _ =>
            .pure _

theorem runChildren_shares {nodes : List GraphNode} (hmode : engine.executionMode = .nativeV2)
    {t : Traversal} (hnodes : ∀ node ∈ nodes, ∀ context, Shares (engine.eval node context t).log)
    (position : HistoryPosition) (context : Context) :
    Shares (runChildren (nodes.map engine.eval) position context t).log := by
  induction nodes generalizing position context with
  | nil => exact .nil
  | cons node nodes ih =>
    rw [List.forall_mem_cons] at hnodes
    refine .bind (hnodes.1 context) fun (status, local') hreturns => ?_
    cases status with
    | continuing p =>
      have hnone : NoDispatch (engine.eval node context t).log :=
        (eval_dispatch hmode node hreturns).noDispatch (by simp)
      exact .inl ⟨hnone, ih hnodes.2 _ local'⟩
    | pending => exact .inr noDispatch_nil
    | terminal p r => exact .inr noDispatch_nil

theorem runIterations_shares {body : GraphNode} (hmode : engine.executionMode = .nativeV2)
    (hbody : ∀ t context, Shares (engine.eval body context t).log) (names : List NodeName)
    (untilGuard : Option Guard) (t : Traversal) (remaining iteration : Nat)
    (position : HistoryPosition) (context : Context) :
    Shares (engine.runIterations names (engine.eval body) untilGuard t remaining iteration position
      context).log := by
  induction remaining generalizing iteration position context with
  | zero => exact .nil
  | succ remaining ih =>
    refine .bind (hbody _ _) fun (status, local') hreturns => ?_
    cases status with
    | continuing p =>
      refine .inl ⟨(eval_dispatch hmode body hreturns).noDispatch (by simp), ?_⟩
      dsimp only
      split
      · exact .nil
      · exact ih _ _ local'
    | pending => exact .inr noDispatch_nil
    | terminal p r => exact .inr noDispatch_nil

/-- What a group does after its children dispatches nothing. -/
theorem close_noDispatch {α : Type} (name : NodeName) (paths : List FieldPath)
    (local' parent : Context) (t : Traversal) (f : Context → α) :
    NoDispatch (do
      let context ← engine.promote name paths local' parent t
      continueDecision name t.mode
      pure (f context) : Walk α).log :=
  noDispatch_of_entries (close_entries (fun _ => decision_undispatched) _ _ _ _ _)

theorem enterGroup_idem (name : NodeName) (t : Traversal) :
    enterGroup name (enterGroup name t) = enterGroup name t := rfl

/-- **One boundary.** All dispatches of an evaluation have the same boundary, whether it succeeds
or fails. -/
theorem eval_shares (hmode : engine.executionMode = .nativeV2) (node : GraphNode) :
    ∀ t context, Shares (engine.eval node context t).log := by
  induction node using GraphNode.induct with
  | step node => exact fun t context => evalExecutable_shares _ _ _
  | verifier node => exact fun t context => evalExecutable_shares _ _ _
  | seq group children ih =>
    intro t context
    rw [eval_seq]
    refine .bind (runChildren_shares hmode (fun node hnode => ih node hnode t) _ _)
      fun result _ => .inr ?_
    obtain ⟨status, local'⟩ := result
    cases status with
    | continuing p => exact close_noDispatch _ _ _ _ _ _
    | pending => exact noDispatch_nil
    | terminal p r => exact noDispatch_nil
  | choice group branches otherwise ihbranches ihotherwise =>
    intro t context
    rw [eval, evalBranches_eq, evalOption_eq]
    unfold evalChoice
    split
    · exact .nil
    · rename_i selected hselected
      rw [selectBranch_eq, Option.map_eq_some_iff] at hselected
      obtain ⟨node, hnode, rfl⟩ := hselected
      have hshares : ∀ context, Shares (engine.eval node context t).log := by
        rcases selectNode_mem hnode with ⟨branch, hbranch, rfl⟩ | hother
        · exact ihbranches branch hbranch t
        · exact ihotherwise node hother t
      refine .bind (hshares _) fun result _ => .inr ?_
      obtain ⟨status, local'⟩ := result
      cases status with
      | continuing p => exact close_noDispatch _ _ _ _ _ _
      | pending => exact noDispatch_nil
      | terminal p r => exact noDispatch_nil
  | par group branches join ih =>
    intro t context
    rw [eval_par, ← enterGroup_idem, ← eval_par]
    exact .of_bounded (dispatch_boundary _ rfl context)
  | loop group body untilGuard maxIterations maxIterationsInput ih =>
    intro t context
    rw [eval_loop]
    refine .bind (runIterations_shares hmode ih _ _ _ _ _ _ _) fun exit _ => .inr ?_
    cases exit with
    | stopped status => exact noDispatch_nil
    | completed local' position label => exact close_noDispatch _ _ _ _ _ _
  | map group body overItems maxItems ih =>
    intro t context
    rw [eval_map, ← enterGroup_idem, ← eval_map]
    exact .of_bounded (dispatch_boundary _ rfl context)
  | succeed node =>
    exact fun t context => .of_noDispatch (noDispatch_of_entries (.bind (.lift _) fun _ => .pure _))
  | fail node => exact fun t context => .nil

end

end Engine

end Zeroshot
