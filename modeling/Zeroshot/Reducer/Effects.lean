import Zeroshot.Reducer.Positions

set_option autoImplicit false

/-!
# What an evaluation asks for

Every effect of an evaluation belongs to the evaluated node and lies at or below the traversal's
scope (`eval_effects`). A dispatch is requested only by a `decide` pass without cutoff that ends
pending (`eval_dispatch`).
-/

namespace Zeroshot

open Logged

/-! ## Where effects belong -/

/-- The effect belongs to the node, at or below the scope of the traversal. -/
def EffectIn (node : GraphNode) (t : Traversal) : Effect → Prop
  | .visit v => v.occurrence.node ∈ node.names ∧ t.mapIndices <+: v.occurrence.mapIndices ∧
      t.loopIterations <+: v.loopIterations
  | .dispatch r => r.occurrence.node ∈ node.names ∧ t.mapIndices <+: r.occurrence.mapIndices ∧
      t.loopIterations <+: r.loopIterations
  | .void s => s.descendants ⊆ node.names ∧ t.mapIndices <+: s.mapIndices ∧
      (s.emitDecisions = true → t.mode = .decide)
  | .joined r => r.group ∈ node.names ∧ t.mapIndices <+: r.mapIndices ∧
      t.loopIterations <+: r.loopIterations
  | .itemTerminated r => r.group ∈ node.names ∧ t.mapIndices <+: r.mapIndices ∧
      t.loopIterations <+: r.loopIterations
  | .decision d => d.isReport = true

theorem EffectIn.mono {node child : GraphNode} {t t' : Traversal} {effect : Effect}
    (h : EffectIn child t' effect) (hnames : child.names ⊆ node.names)
    (hindices : t.mapIndices <+: t'.mapIndices)
    (hiterations : t.loopIterations <+: t'.loopIterations)
    (hmode : t'.mode = .decide → t.mode = .decide) : EffectIn node t effect := by
  cases effect with
  | visit v => exact ⟨hnames h.1, hindices.trans h.2.1, hiterations.trans h.2.2⟩
  | dispatch r => exact ⟨hnames h.1, hindices.trans h.2.1, hiterations.trans h.2.2⟩
  | void s => exact ⟨fun _ hmem => hnames (h.1 hmem), hindices.trans h.2.1,
      fun hemit => hmode (h.2.2 hemit)⟩
  | joined r => exact ⟨hnames h.1, hindices.trans h.2.1, hiterations.trans h.2.2⟩
  | itemTerminated r => exact ⟨hnames h.1, hindices.trans h.2.1, hiterations.trans h.2.2⟩
  | decision d => exact h

theorem Decisions.effectIn {log : List Effect} (h : Decisions log) (node : GraphNode)
    (t : Traversal) : ∀ effect ∈ log, EffectIn node t effect := by
  intro effect hmem
  obtain ⟨d, rfl, hd⟩ := h effect hmem
  exact hd

theorem GraphNode.name_mem_names (node : GraphNode) : node.name ∈ node.names := by
  rw [names, descendants_eq]
  exact List.mem_cons_self

theorem GraphNode.names_child {node child : GraphNode} (h : child ∈ node.children) :
    child.names ⊆ node.names := by
  intro name hname
  obtain ⟨d, hd, rfl⟩ := List.mem_map.mp hname
  rw [names, descendants_eq]
  exact List.mem_map_of_mem (List.mem_cons_of_mem _ (List.mem_flatMap.mpr ⟨child, h, hd⟩))

namespace Engine

theorem mem_descendants_of_child {node child : GraphNode} (h : child ∈ node.children)
    {sub : GraphNode} (hsub : sub ∈ child.descendants) : sub ∈ node.descendants := by
  rw [GraphNode.descendants_eq]
  exact List.mem_cons_of_mem _ (List.mem_flatMap.mpr ⟨child, h, hsub⟩)

variable {engine : Engine}

theorem evalExecutable_effects (hmode : engine.executionMode = .nativeV2) {spec : ExecutableSpec}
    {node : GraphNode} (hname : spec.name ∈ node.names) {context c : Context} {t : Traversal}
    {status : Status} {log : List Effect}
    (h : (engine.evalExecutable spec context t).Returns (status, c) log) :
    ∀ effect ∈ log, EffectIn node t effect := by
  obtain ⟨number, input, rest, -, -, -, rfl, -, hleaf⟩ := evalExecutable_returns hmode h
  intro effect hmem
  rcases List.mem_cons.mp hmem with rfl | hmem
  · exact ⟨hname, List.prefix_refl _, List.prefix_refl _⟩
  cases hleaf with
  | waiting => cases hmem
  | missing =>
    rw [List.mem_singleton.mp hmem]
    exact ⟨hname, List.prefix_refl _, List.prefix_refl _⟩
  | retry e attempt hlast =>
    rw [List.mem_singleton.mp hmem]
    have hoccurrence := (mem_of_mem_visitExecutions (List.mem_of_getLast? hlast)).2
    refine ⟨?_, ?_, List.prefix_refl _⟩
    · rw [hoccurrence]
      exact hname
    · exact hoccurrence ▸ List.prefix_refl _
  | done position _ hlog => exact hlog.effectIn node t effect hmem

theorem runChildren_mem_log {children : List Evaluator} {position : HistoryPosition}
    {context c : Context} {t : Traversal} {status : Status} {log : List Effect}
    (h : (runChildren children position context t).Returns (status, c) log) {effect : Effect}
    (hmem : effect ∈ log) : ∃ child ∈ children, ∃ context s c inner,
      (child context t).Returns (s, c) inner ∧ effect ∈ inner ∧ inner ⊆ log := by
  induction children generalizing position context log with
  | nil =>
    obtain ⟨-, -, rfl⟩ := runChildren_nil h
    cases hmem
  | cons child rest ih =>
    obtain ⟨p, c', first, second, hrun, hrest, rfl⟩ | ⟨s, hrun, -, rfl⟩ := runChildren_cons h
    · rcases List.mem_append.mp hmem with hmem | hmem
      · exact ⟨child, List.mem_cons_self, _, _, _, _, hrun, hmem, List.subset_append_left _ _⟩
      · obtain ⟨child', hchild', context', s, c'', inner, hrun', hmem, hsub⟩ := ih hrest hmem
        exact ⟨child', List.mem_cons_of_mem _ hchild', context', s, c'', inner, hrun', hmem,
          List.subset_append_of_subset_right _ hsub⟩
    · exact ⟨child, List.mem_cons_self, _, _, _, _, hrun, hmem, List.Subset.refl _⟩

theorem runIterations_mem_log {names : List NodeName} {body : Evaluator}
    {untilGuard : Option Guard} {t : Traversal} {remaining iteration : Nat}
    {position : HistoryPosition} {context : Context} {exit : LoopExit} {log : List Effect}
    (h : (engine.runIterations names body untilGuard t remaining iteration position
      context).Returns exit log) {effect : Effect} (hmem : effect ∈ log) :
    ∃ i context s c inner, (body context (iterationTraversal t i)).Returns (s, c) inner ∧
      effect ∈ inner ∧ inner ⊆ log := by
  induction remaining generalizing iteration position context log with
  | zero =>
    obtain ⟨-, rfl⟩ := returns_pure.mp h
    cases hmem
  | succ remaining ih =>
    obtain ⟨p, c, first, second, hrun, rfl, hnext⟩ | ⟨s, c, hrun, -, rfl⟩ := runIterations_succ h
    · rcases List.mem_append.mp hmem with hmem | hmem
      · exact ⟨_, _, _, _, _, hrun, hmem, List.subset_append_left _ _⟩
      · obtain ⟨-, -, rfl⟩ | ⟨-, hrest⟩ := hnext
        · cases hmem
        · obtain ⟨i, context', s, c', inner, hrun', hmem, hsub⟩ := ih hrest hmem
          exact ⟨i, context', s, c', inner, hrun', hmem,
            List.subset_append_of_subset_right _ hsub⟩
    · exact ⟨_, _, _, _, _, hrun, hmem, List.Subset.refl _⟩

theorem mem_loserScopes {t : Traversal} {position : HistoryPosition} {winners : List Nat}
    {start : Nat} {branches : List Child} {effect : Effect}
    (h : effect ∈ loserScopes t position winners start branches) :
    ∃ k branch, branches[k]? = some branch ∧ start + k ∉ winners ∧
      effect = .void ⟨branch.node.names, t.mapIndices, none, position, .parallelJoin,
        t.mode == .decide⟩ := by
  induction branches generalizing start with
  | nil => cases h
  | cons branch branches ih =>
    have hrest : effect ∈ loserScopes t position winners (start + 1) branches →
        ∃ k branch', (branch :: branches)[k]? = some branch' ∧ start + k ∉ winners ∧
          effect = .void ⟨branch'.node.names, t.mapIndices, none, position, .parallelJoin,
            t.mode == .decide⟩ := by
      intro h
      obtain ⟨k, branch', hk, hnot, rfl⟩ := ih h
      refine ⟨k + 1, branch', hk, ?_, rfl⟩
      rwa [Nat.add_right_comm] at hnot
    rw [loserScopes] at h
    split at h
    · exact hrest h
    case isFalse hnot =>
      rcases List.mem_cons.mp h with rfl | h
      · exact ⟨0, branch, rfl, by simpa using hnot, rfl⟩
      · exact hrest h

theorem mem_joinScopes {branches : List Child} {t : Traversal} {required : Nat}
    {winners : List Nat} {position : HistoryPosition} {effect : Effect}
    (h : effect ∈ joinScopes branches t required winners position) :
    required < branches.length ∧ ∃ (k : Nat) (branch : Child), branches[k]? = some branch ∧
      k ∉ winners ∧ effect = .void ⟨branch.node.names, t.mapIndices, none, position,
        .parallelJoin, t.mode == .decide⟩ := by
  unfold joinScopes at h
  split at h
  case isTrue hfew =>
    obtain ⟨k, branch, hk, hnot, heffect⟩ := mem_loserScopes h
    rw [Nat.zero_add] at hnot
    exact ⟨hfew, k, branch, hk, hnot, heffect⟩
  case isFalse => cases h

/-- **Effects belong to the evaluated node.** -/
theorem eval_effects (hmode : engine.executionMode = .nativeV2) (node : GraphNode) :
    ∀ {context c : Context} {t : Traversal} {status : Status} {log : List Effect},
      (engine.eval node context t).Returns (status, c) log →
        ∀ effect ∈ log, EffectIn node t effect := by
  induction node using GraphNode.induct with
  | step node =>
    exact fun h => evalExecutable_effects hmode (GraphNode.name_mem_names (.step node)) h
  | verifier node =>
    exact fun h => evalExecutable_effects hmode (GraphNode.name_mem_names (.verifier node)) h
  | seq group children ih =>
    intro context c t status log h effect hmem
    rw [eval_seq] at h
    obtain ⟨local', first, second, hchildren, -, rfl, hsecond⟩ := evalSequence_returns h
    rcases List.mem_append.mp hmem with hmem | hmem
    · obtain ⟨child, hchild, context', s, c', inner, hrun, hmem, -⟩ :=
        runChildren_mem_log hchildren hmem
      obtain ⟨node, hnode, rfl⟩ := List.mem_map.mp hchild
      have hnames : node.names ⊆ (GraphNode.seq group children).names :=
        GraphNode.names_child hnode
      exact (ih node hnode hrun effect hmem).mono hnames (List.prefix_refl _) (List.prefix_refl _)
        id
    · exact hsecond.effectIn _ t effect hmem
  | choice group branches otherwise ihbranches ihotherwise =>
    intro context c t status log h effect hmem
    obtain ⟨node, local', first, second, hnode, hrun, -, rfl, hsecond⟩ :=
      eval_choice_returns engine h
    rcases List.mem_append.mp hmem with hmem | hmem
    · have hchild : node ∈ (GraphNode.choice group branches otherwise).children :=
        selectNode_child hnode
      have heffect : EffectIn node t effect := by
        rcases selectNode_mem hnode with ⟨b, hb, rfl⟩ | hother
        · exact ihbranches b hb hrun effect hmem
        · exact ihotherwise node hother hrun effect hmem
      exact heffect.mono (GraphNode.names_child hchild) (List.prefix_refl _) (List.prefix_refl _) id
    · exact hsecond.effectIn _ t effect hmem
  | par group branches join ih =>
    intro context c t status log h effect hmem
    rw [eval_par] at h
    obtain ⟨probes, plog, hprobes, hrun⟩ := evalParallel_returns h
    have hbranch : ∀ {branch : Child} {k : Nat} {t' : Traversal} {context' c' : Context}
        {s : Status} {inner : List Effect}, (branches.map engine.child)[k]? = some branch →
        (branch.run context' t').Returns (s, c') inner → effect ∈ inner →
        t'.mapIndices = t.mapIndices → t'.loopIterations = t.loopIterations →
        (t'.mode = .decide → t.mode = .decide) →
        EffectIn (.par group branches join) t effect := by
      intro branch k t' context' c' s inner hbranch hinner hmem hindices hiterations hmode'
      obtain ⟨node, hnode, rfl⟩ := List.mem_map.mp (List.mem_of_getElem? hbranch)
      have hnames : node.names ⊆ (GraphNode.par group branches join).names :=
        GraphNode.names_child hnode
      exact (ih node hnode hinner effect hmem).mono hnames (hindices ▸ List.prefix_refl _)
        (hiterations ▸ List.prefix_refl _) hmode'
    have hprobe : effect ∈ plog → EffectIn (.par group branches join) t effect := by
      intro hmem
      obtain ⟨k, branch, probe, inner, hk, -, hinner, hmem, -⟩ := forEach_mem_log hprobes hmem
      exact hbranch hk hinner hmem rfl rfl fun h => by cases h
    cases hrun with
    | opened dlog _ _ hdecide =>
      rcases List.mem_append.mp hmem with hmem | hmem
      · exact hprobe hmem
      obtain ⟨-, rfl⟩ | ⟨-, results, hresults⟩ := hdecide
      · cases hmem
      · obtain ⟨k, branch, result, inner, hk, -, hinner, hmem, -⟩ := forEach_mem_log hresults hmem
        exact hbranch hk hinner hmem rfl rfl id
    | unreachable dlog _ _ hlog =>
      rcases List.mem_append.mp hmem with hmem | hmem
      · exact hprobe hmem
      · exact hlog.effectIn _ t effect hmem
    | reached position joined wlog first last _ _ hjoin hfirst hlast =>
      simp only [List.mem_append, List.mem_cons] at hmem
      rcases hmem with hmem | hmem | hmem | rfl | hmem | hmem
      · exact hprobe hmem
      · obtain ⟨index, branch, p, local', inner, -, hk, hinner, hmem, -⟩ :=
          joinParallelWinners_mem_log hjoin hmem
        exact hbranch hk hinner hmem rfl rfl id
      · exact hfirst.effectIn _ t effect hmem
      · exact ⟨GraphNode.name_mem_names (.par group branches join), List.prefix_refl _,
          List.prefix_refl _⟩
      · obtain ⟨-, k, branch, hk, -, rfl⟩ := mem_joinScopes hmem
        obtain ⟨node, hnode, rfl⟩ := List.mem_map.mp (List.mem_of_getElem? hk)
        have hnames : node.names ⊆ (GraphNode.par group branches join).names :=
          GraphNode.names_child hnode
        exact ⟨hnames, List.prefix_refl _, fun hemit => by simpa [enterGroup] using hemit⟩
      · exact hlast.effectIn _ t effect hmem
  | loop group body untilGuard maxIterations maxIterationsInput ih =>
    intro context c t status log h effect hmem
    rw [eval_loop] at h
    obtain ⟨exit, first, second, hiterations, -, rfl, hsecond⟩ := evalLoop_returns h
    rcases List.mem_append.mp hmem with hmem | hmem
    · obtain ⟨i, context', s, c', inner, hrun, hmem, -⟩ := runIterations_mem_log hiterations hmem
      have hnames : body.names ⊆
          (GraphNode.loop group body untilGuard maxIterations maxIterationsInput).names :=
        GraphNode.names_child (List.mem_singleton_self body)
      exact (ih hrun effect hmem).mono hnames (List.prefix_refl _) (List.prefix_append _ _) id
    · exact hsecond.effectIn _ t effect hmem
  | map group body overItems maxItems ih =>
    intro context c t status log h effect hmem
    rw [eval_map] at h
    obtain ⟨selected, items, -, -, hmap⟩ := evalMap_returns h
    obtain ⟨-, -, -, hlog⟩ | ⟨-, probes, plog, hprobes, hrun⟩ := hmap
    · exact hlog.effectIn _ t effect hmem
    have hnames : body.names ⊆ (GraphNode.map group body overItems maxItems).names :=
      GraphNode.names_child (List.mem_singleton_self body)
    have hitems : ∀ {t' : Traversal} {results log'},
        (evaluateMapItems (engine.child body).run context t' items).Returns results log' →
        effect ∈ log' → t'.mapIndices = t.mapIndices → t'.loopIterations = t.loopIterations →
        (t'.mode = .decide → t.mode = .decide) →
        EffectIn (.map group body overItems maxItems) t effect := by
      intro t' results log' hresults hmem hindices hiterations hmode'
      obtain ⟨k, item, result, inner, -, -, ⟨-, hinner⟩, hmem, -⟩ :=
        evaluateMapItems_mem_log hresults hmem
      refine (ih hinner effect hmem).mono hnames ?_ (hiterations ▸ List.prefix_refl _) hmode'
      exact hindices ▸ List.prefix_append _ _
    have hprobe : effect ∈ plog → EffectIn (.map group body overItems maxItems) t effect := by
      exact fun hmem => hitems hprobes hmem rfl rfl fun h => by cases h
    cases hrun with
    | terminal index found item s dlog _ _ hdecide =>
      simp only [List.mem_append, List.mem_cons, List.not_mem_nil, or_false] at hmem
      rcases hmem with hmem | hmem | rfl | rfl
      · exact hprobe hmem
      · obtain ⟨-, -, rfl⟩ | ⟨-, c', hagain⟩ := hdecide
        · cases hmem
        · exact (ih hagain effect hmem).mono hnames (List.prefix_append _ _)
            (List.prefix_refl _) id
      · exact ⟨GraphNode.name_mem_names (.map group body overItems maxItems), List.prefix_refl _,
          List.prefix_refl _⟩
      · exact ⟨hnames, List.prefix_refl _, fun hemit => by simpa [enterGroup] using hemit⟩
    | pending results rlog _ hresults _ =>
      rcases List.mem_append.mp hmem with hmem | hmem
      · exact hprobe hmem
      obtain ⟨-, -, rfl⟩ | ⟨-, hresults⟩ := hresults
      · cases hmem
      · exact hitems hresults hmem rfl rfl id
    | finished results rlog dlog _ _ hresults _ _ hlog =>
      simp only [List.mem_append] at hmem
      rcases hmem with hmem | hmem | hmem
      · exact hprobe hmem
      · obtain ⟨-, -, rfl⟩ | ⟨-, hresults⟩ := hresults
        · cases hmem
        · exact hitems hresults hmem rfl rfl id
      · exact hlog.effectIn _ t effect hmem
  | succeed node =>
    intro context c t status log h effect hmem
    obtain ⟨output, -, -, -, rfl⟩ := evalSucceed_returns h
    cases hmem
  | fail node =>
    intro context c t status log h effect hmem
    obtain ⟨-, -, rfl⟩ := evalFail_returns h
    cases hmem

end Engine

/-! ## Dispatches -/

/-- A log without dispatches. -/
def NoDispatch (log : List Effect) : Prop := ∀ request, Effect.dispatch request ∉ log

theorem Decisions.noDispatch {log : List Effect} (h : Decisions log) : NoDispatch log := by
  intro request hmem
  obtain ⟨d, hd, -⟩ := h _ hmem
  cases hd

theorem NoDispatch.append {first second : List Effect} (h : NoDispatch first)
    (h' : NoDispatch second) : NoDispatch (first ++ second) := fun request hmem =>
  (List.mem_append.mp hmem).elim (h request) (h' request)

namespace Engine

variable {engine : Engine}

theorem loserScopes_noDispatch {t : Traversal} {position : HistoryPosition} {winners : List Nat}
    {index : Nat} {branches : List Child} :
    NoDispatch (loserScopes t position winners index branches) := by
  induction branches generalizing index with
  | nil => exact fun _ h => by cases h
  | cons branch branches ih =>
    rw [loserScopes]
    split
    · exact ih
    · rintro request (_ | ⟨_, hmem⟩)
      exact ih request hmem

theorem joinScopes_noDispatch {branches : List Child} {t : Traversal} {required : Nat}
    {winners : List Nat} {position : HistoryPosition} :
    NoDispatch (joinScopes branches t required winners position) := by
  unfold joinScopes
  split
  · exact loserScopes_noDispatch
  · exact fun _ h => by cases h

/-- Whoever asks for a dispatch ends pending, in a `decide` pass without cutoff. -/
def DispatchesPending (t : Traversal) (status : Status) (log : List Effect) : Prop :=
  ∀ request, Effect.dispatch request ∈ log → status = .pending ∧ mayDispatch t = true

theorem DispatchesPending.of_noDispatch {t : Traversal} {status : Status} {log : List Effect}
    (h : NoDispatch log) : DispatchesPending t status log := fun request hmem =>
  absurd hmem (h request)

theorem DispatchesPending.append {t : Traversal} {status : Status} {first second : List Effect}
    (h : DispatchesPending t status first) (h' : DispatchesPending t status second) :
    DispatchesPending t status (first ++ second) := fun request hmem =>
  (List.mem_append.mp hmem).elim (h request) (h' request)

theorem DispatchesPending.noDispatch {t : Traversal} {status : Status} {log : List Effect}
    (h : DispatchesPending t status log) (hne : status ≠ .pending) : NoDispatch log :=
  fun request hmem => hne (h request hmem).1

theorem DispatchesPending.noDispatch_of_mode {t : Traversal} {status : Status} {log : List Effect}
    (h : DispatchesPending t status log) (hmay : mayDispatch t = false) : NoDispatch log := by
  intro request hmem
  rw [(h request hmem).2] at hmay
  cases hmay

theorem evalExecutable_dispatch (hmode : engine.executionMode = .nativeV2) {spec : ExecutableSpec}
    {context c : Context} {t : Traversal} {status : Status} {log : List Effect}
    (h : (engine.evalExecutable spec context t).Returns (status, c) log) :
    DispatchesPending t status log := by
  obtain ⟨number, input, rest, -, -, -, rfl, -, hleaf⟩ := evalExecutable_returns hmode h
  rintro request (_ | ⟨_, hmem⟩)
  cases hleaf with
  | waiting => cases hmem
  | missing _ hmay => exact ⟨rfl, hmay⟩
  | retry _ _ _ _ _ _ hmay => exact ⟨rfl, hmay⟩
  | done position _ hlog => exact absurd hmem (hlog.noDispatch request)

theorem runChildren_dispatch {children : List Evaluator} {t : Traversal}
    (hchildren : ∀ child ∈ children, ∀ context status c log,
      (child context t).Returns (status, c) log → DispatchesPending t status log)
    {position : HistoryPosition} {context c : Context} {status : Status} {log : List Effect}
    (h : (runChildren children position context t).Returns (status, c) log) :
    DispatchesPending t status log := by
  induction children generalizing position context log with
  | nil =>
    obtain ⟨-, -, rfl⟩ := runChildren_nil h
    exact fun _ h => by cases h
  | cons child rest ih =>
    have hchild := hchildren child List.mem_cons_self
    obtain ⟨p, c', first, second, hrun, hrest, rfl⟩ | ⟨s, hrun, -, rfl⟩ := runChildren_cons h
    · refine .append (.of_noDispatch ((hchild _ _ _ _ hrun).noDispatch (by simp))) ?_
      exact ih (fun child hmem => hchildren child (List.mem_cons_of_mem _ hmem)) hrest
    · intro request hmem
      obtain ⟨rfl, hmay⟩ := hchild _ _ _ _ hrun request hmem
      exact ⟨rfl, hmay⟩

/-- A loop that asks for a dispatch stopped pending. -/
def ExitDispatches (t : Traversal) (exit : LoopExit) (log : List Effect) : Prop :=
  ∀ request, Effect.dispatch request ∈ log → exit = .stopped .pending ∧ mayDispatch t = true

theorem runIterations_dispatch {names : List NodeName} {body : Evaluator}
    {untilGuard : Option Guard} {t : Traversal}
    (hbody : ∀ iteration context status c log,
      (body context (iterationTraversal t iteration)).Returns (status, c) log →
        DispatchesPending t status log)
    {remaining iteration : Nat} {position : HistoryPosition} {context : Context} {exit : LoopExit}
    {log : List Effect}
    (h : (engine.runIterations names body untilGuard t remaining iteration position
      context).Returns exit log) : ExitDispatches t exit log := by
  induction remaining generalizing iteration position context log with
  | zero =>
    obtain ⟨-, rfl⟩ := returns_pure.mp h
    exact fun _ h => by cases h
  | succ remaining ih =>
    obtain ⟨p, c, first, second, hrun, rfl, hnext⟩ | ⟨s, c, hrun, -, rfl⟩ := runIterations_succ h
    · have hfirst : NoDispatch first := (hbody _ _ _ _ _ hrun).noDispatch (by simp)
      intro request hmem
      rcases List.mem_append.mp hmem with hmem | hmem
      · exact absurd hmem (hfirst request)
      · obtain ⟨-, -, rfl⟩ | ⟨-, hrest⟩ := hnext
        · cases hmem
        · exact ih hrest request hmem
    · intro request hmem
      obtain ⟨rfl, hmay⟩ := hbody _ _ _ _ _ hrun request hmem
      exact ⟨rfl, hmay⟩

theorem forEach_noDispatch {α β : Type} {f : α → Walk β} {as : List α} {bs : List β}
    {log : List Effect} (h : (forEach f as).Returns bs log)
    (hf : ∀ a b inner, a ∈ as → b ∈ bs → (f a).Returns b inner → NoDispatch inner) :
    NoDispatch log := by
  intro request hmem
  obtain ⟨k, a, b, inner, ha, hb, hrun, hinner, -⟩ := forEach_mem_log h hmem
  exact hf a b inner (List.mem_of_getElem? ha) (List.mem_of_getElem? hb) hrun request hinner

/-- **Only pending evaluations ask for dispatches.** -/
theorem eval_dispatch (hmode : engine.executionMode = .nativeV2) (node : GraphNode) :
    ∀ {context c : Context} {t : Traversal} {status : Status} {log : List Effect},
      (engine.eval node context t).Returns (status, c) log → DispatchesPending t status log := by
  induction node using GraphNode.induct with
  | step node => exact fun h => evalExecutable_dispatch hmode h
  | verifier node => exact fun h => evalExecutable_dispatch hmode h
  | seq group children ih =>
    intro context c t status log h
    rw [eval_seq] at h
    obtain ⟨local', first, second, hchildren, -, rfl, hsecond⟩ := evalSequence_returns h
    refine .append (runChildren_dispatch ?_ hchildren) (.of_noDispatch hsecond.noDispatch)
    intro child hchild context status c log hrun
    obtain ⟨node, hnode, rfl⟩ := List.mem_map.mp hchild
    exact ih node hnode hrun
  | choice group branches otherwise ihbranches ihotherwise =>
    intro context c t status log h
    obtain ⟨node, local', first, second, hnode, hrun, -, rfl, hsecond⟩ :=
      eval_choice_returns engine h
    refine .append ?_ (.of_noDispatch hsecond.noDispatch)
    rcases selectNode_mem hnode with ⟨b, hb, rfl⟩ | hother
    · exact ihbranches b hb hrun
    · exact ihotherwise node hother hrun
  | par group branches join ih =>
    intro context c t status log h
    rw [eval_par] at h
    obtain ⟨probes, plog, hprobes, hrun⟩ := evalParallel_returns h
    have hplog : NoDispatch plog := by
      refine forEach_noDispatch hprobes fun branch probe inner hbranch _ hinner => ?_
      obtain ⟨node, hnode, rfl⟩ := List.mem_map.mp hbranch
      exact (ih node hnode hinner).noDispatch_of_mode rfl
    cases hrun with
    | opened dlog _ _ hdecide =>
      refine .append (.of_noDispatch hplog) ?_
      obtain ⟨-, rfl⟩ | ⟨-, results, hresults⟩ := hdecide
      · exact fun _ h => by cases h
      · intro request hmem
        obtain ⟨k, branch, result, inner, hbranch, -, hinner, hmem, -⟩ :=
          forEach_mem_log hresults hmem
        obtain ⟨node, hnode, rfl⟩ := List.mem_map.mp (List.mem_of_getElem? hbranch)
        exact ⟨rfl, (ih node hnode hinner request hmem).2⟩
    | unreachable dlog _ _ hlog => exact .of_noDispatch (hplog.append hlog.noDispatch)
    | reached position joined wlog first last _ _ hjoin hfirst hlast =>
      refine .of_noDispatch (hplog.append (.append ?_ (hfirst.noDispatch.append ?_)))
      · intro request hmem
        obtain ⟨index, branch, p, local', inner, -, hbranch, hwinner, hmem, -⟩ :=
          joinParallelWinners_mem_log hjoin hmem
        obtain ⟨node, hnode, rfl⟩ := List.mem_map.mp (List.mem_of_getElem? hbranch)
        exact (ih node hnode hwinner).noDispatch (by simp) request hmem
      · rintro request (_ | ⟨_, hmem⟩)
        exact (joinScopes_noDispatch.append hlast.noDispatch) request hmem
  | loop group body untilGuard maxIterations maxIterationsInput ih =>
    intro context c t status log h
    rw [eval_loop] at h
    obtain ⟨exit, first, second, hiterations, hclose, rfl, hsecond⟩ := evalLoop_returns h
    have hexit : ExitDispatches t exit first := by
      refine runIterations_dispatch ?_ hiterations
      intro iteration context status c log hrun request hmem
      have hpending := ih hrun request hmem
      exact hpending
    refine .append (fun request hmem => ?_) (.of_noDispatch hsecond.noDispatch)
    obtain ⟨rfl, hmay⟩ := hexit request hmem
    cases hclose
    exact ⟨rfl, hmay⟩
  | map group body overItems maxItems ih =>
    intro context c t status log h
    rw [eval_map] at h
    obtain ⟨selected, items, -, -, hmap⟩ := evalMap_returns h
    obtain ⟨-, -, -, hlog⟩ | ⟨-, probes, plog, hprobes, hrun⟩ := hmap
    · exact .of_noDispatch hlog.noDispatch
    have hplog : NoDispatch plog := by
      intro request hmem
      obtain ⟨k, item, result, inner, -, -, ⟨-, hinner⟩, hmem, -⟩ :=
        evaluateMapItems_mem_log hprobes hmem
      exact (ih hinner).noDispatch_of_mode rfl request hmem
    have hresult : ∀ {results rlog},
        (evaluateMapItems (engine.child body).run context (enterGroup group.name t) items).Returns
          results rlog → ∀ request, Effect.dispatch request ∈ rlog →
          (∃ result ∈ results, result.status = .pending) ∧ mayDispatch t = true := by
      intro results rlog hresults request hmem
      obtain ⟨k, item, result, inner, -, hk, ⟨-, hinner⟩, hmem, -⟩ :=
        evaluateMapItems_mem_log hresults hmem
      obtain ⟨hpending, hmay⟩ := ih hinner request hmem
      exact ⟨⟨result, List.mem_of_getElem? hk, hpending⟩, hmay⟩
    cases hrun with
    | terminal index found item s dlog hfound hitem hdecide =>
      refine .append (.of_noDispatch hplog) (.append ?_ ?_)
      · obtain ⟨-, -, rfl⟩ | ⟨-, c', hagain⟩ := hdecide
        · exact fun _ h => by cases h
        · intro request hmem
          obtain ⟨rfl, hmay⟩ := ih hagain request hmem
          -- The item is terminal at or before the cutoff, so there is none.
          obtain ⟨r, hr, rfl, hterminal⟩ := found_mem hfound
          obtain ⟨item', inner, -, ⟨-, hinner⟩, -⟩ := evaluateMapItems_get_result hprobes hr
          have hle : r.status.position ≤ t.cutoff := by
            refine eval_within hmode body ?_ hinner (Status.ne_pending hterminal)
            exact leafBound_cutoff t.cutoff
          simp only [mayDispatch, terminalTraversal, Bool.and_eq_true, beq_iff_eq] at hmay
          simp only [mayDispatch, Bool.and_eq_true, beq_iff_eq]
          exact ⟨trivial, hmay.1, le_antisymm (HistoryPosition.le_max _) (hmay.2 ▸ hle)⟩
      · rintro request (_ | ⟨_, _ | ⟨_, hmem⟩⟩)
        cases hmem
    | pending results rlog _ hresults _ =>
      refine .append (.of_noDispatch hplog) ?_
      obtain ⟨-, -, rfl⟩ | ⟨-, hresults⟩ := hresults
      · exact fun _ h => by cases h
      · exact fun request hmem => ⟨rfl, (hresult hresults request hmem).2⟩
    | finished results rlog dlog _ _ hresults hsettled _ hlog =>
      refine .of_noDispatch (hplog.append (.append ?_ hlog.noDispatch))
      obtain ⟨-, -, rfl⟩ | ⟨-, hresults⟩ := hresults
      · exact fun _ h => by cases h
      · intro request hmem
        obtain ⟨⟨result, hmem', hpending⟩, -⟩ := hresult hresults request hmem
        exact hsettled result hmem' hpending
  | succeed node =>
    intro context c t status log h
    obtain ⟨output, -, -, -, rfl⟩ := evalSucceed_returns h
    exact fun _ h => by cases h
  | fail node =>
    intro context c t status log h
    obtain ⟨-, -, rfl⟩ := evalFail_returns h
    exact fun _ h => by cases h

end Engine

end Zeroshot
