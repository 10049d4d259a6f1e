import Zeroshot.Reducer.Causality
import Zeroshot.Reducer.Sources

set_option autoImplicit false

/-!
# Facts of an evaluation

An evaluation all of whose outcomes lie up to a level comes across no fact that a second evaluation
with the same outcomes up to that level does not come across, if that one returns: whatever the
modes and the cutoffs of the two, and even if the first one fails (`eval_facts`). In particular a
`decide` pass, or a second pass up to the position of a join, comes across nothing that the probe
before it did not, but the joins and the terminal items it reaches itself.
-/

namespace Zeroshot

open Logged Engine

/-! ## Two evaluations in one scope -/

/-- The traversals agree on the scope and the loop iterations. -/
structure SameScope (m m' : EvalMode) (c c' : HistoryPosition) (t t' : Traversal) : Prop extends
    Sync m m' c c' t t' where
  loopIterations : t.loopIterations = t'.loopIterations

namespace SameScope

theorem refl (t : Traversal) : SameScope t.mode t.mode t.cutoff t.cutoff t t := ⟨Sync.refl t, rfl⟩

variable {m m' : EvalMode} {c c' : HistoryPosition} {t t' : Traversal}
  (h : SameScope m m' c c' t t')
include h

theorem group (name : NodeName) :
    SameScope m m' c c' (enterGroup name t) (enterGroup name t') :=
  ⟨h.toSync.group name, h.loopIterations⟩

theorem probing :
    SameScope .probe .probe c c' { t with mode := .probe } { t' with mode := .probe } :=
  ⟨h.toSync.probing, h.loopIterations⟩

/-- The second traversal probes. -/
theorem probingRight : SameScope m .probe c c' t { t' with mode := .probe } :=
  ⟨⟨h.mapIndices, h.item, h.mode, rfl, h.cutoff, h.cutoff'⟩, h.loopIterations⟩

theorem iteration (i : Nat) :
    SameScope m m' c c' (iterationTraversal t i) (iterationTraversal t' i) := by
  refine ⟨h.toSync.iteration i i, ?_⟩
  rw [iterationTraversal, iterationTraversal, h.loopIterations]

theorem item' (item : Value × Nat) :
    SameScope m m' c c' (itemTraversal t item) (itemTraversal t' item) :=
  ⟨h.toSync.item' item, h.loopIterations⟩

/-- A second pass over a winner against a probe of it. -/
theorem winner (p : HistoryPosition) :
    SameScope m .probe p c' { t with cutoff := p } { t' with mode := .probe } :=
  ⟨⟨h.mapIndices, h.item, h.mode, rfl, rfl, h.cutoff'⟩, h.loopIterations⟩

/-- A second pass over a terminal item against a probe of it. -/
theorem terminalItem (item : Value × Nat) (p : HistoryPosition) :
    SameScope m .probe p c' (terminalTraversal t item p)
      (itemTraversal { t' with mode := .probe } item) := by
  refine ⟨⟨?_, rfl, h.mode, rfl, rfl, h.cutoff'⟩, h.loopIterations⟩
  rw [terminalTraversal, itemTraversal, h.mapIndices]

end SameScope

theorem Comparable.le {p q c c' : HistoryPosition} (h : Comparable q c c') (hq : p ≤ q)
    (hc : p ≤ c) : p ≤ c' := by
  rcases h with rfl | ⟨-, h⟩
  · exact hc
  · exact hq.trans h

section

variable {levels : HistoryPosition → Prop} {engines : Engine → Prop}
  (hfamily : EngineFamily False levels engines)

/-- Two evaluations of a node with the same outcomes up to `q`, the first of which sees no others
and the second of which returns: the second comes across every fact of the first. -/
def Engine.Followed (levels : HistoryPosition → Prop) (engines : Engine → Prop)
    (node : GraphNode) : Prop :=
  ∀ {engine engine' : Engine}, engines engine → engines engine' →
    ∀ {q c c' : HistoryPosition}, levels q → Comparable q c c' → LeafBound engine c q →
      ∀ {m m' : EvalMode} {context : Context} {t t' : Traversal} {r' : Status × Context}
        {log' : List Effect}, SameScope m m' c c' t t' →
        (engine'.eval node context t').Returns r' log' →
        ∀ {effect : Effect} {fact : Fact}, effect.fact? = some fact →
          effect ∈ (engine.eval node context t).log → fact ∈ facts log'

include hfamily

theorem executable_facts {engine engine' : Engine} (hmem : engines engine)
    (hmem' : engines engine') {spec : ExecutableSpec} {m m' : EvalMode} {c c' : HistoryPosition}
    {context : Context} {t t' : Traversal} {r' : Status × Context} {log' : List Effect}
    (hscope : SameScope m m' c c' t t')
    (h' : (engine'.evalExecutable spec context t').Returns r' log') {effect : Effect} {fact : Fact}
    (hfact : effect.fact? = some fact)
    (heffect : effect ∈ (engine.evalExecutable spec context t).log) : fact ∈ facts log' := by
  have hconfig := hfamily.config hmem hmem'
  obtain ⟨status', d'⟩ := r'
  obtain ⟨input, hinput, rfl⟩ := evalExecutable_fact hconfig.native hfact heffect
  obtain ⟨number', input', rest', rfl, hinput', -, rfl, -, -⟩ :=
    evalExecutable_returns hconfig.native' h'
  rw [hscope.item, hinput'] at hinput
  cases hinput
  cases hfact
  refine mem_facts.mpr ⟨_, List.mem_cons_self, ?_⟩
  rw [hscope.mapIndices, hscope.loopIterations]
  rfl

theorem runChildren_facts {nodes : List GraphNode}
    (ih : ∀ n ∈ nodes, Followed levels engines n) {engine engine' : Engine}
    (hmem : engines engine) (hmem' : engines engine') {q c c' : HistoryPosition} (hq : levels q)
    (hc : Comparable q c c') (hbound : LeafBound engine c q) {m m' : EvalMode} {t t' : Traversal}
    (hscope : SameScope m m' c c' t t') {position position' : HistoryPosition}
    {context d' : Context} {status' : Status} {log' : List Effect}
    (h' : (runChildren (nodes.map engine'.eval) position' context t').Returns (status', d') log')
    {effect : Effect} {fact : Fact} (hfact : effect.fact? = some fact)
    (heffect : effect ∈ (runChildren (nodes.map engine.eval) position context t).log) :
    fact ∈ facts log' := by
  induction nodes generalizing position position' context log' with
  | nil => cases heffect
  | cons node nodes ihnodes =>
    have hnode : Followed levels engines node := ih node List.mem_cons_self
    obtain ⟨p', e', first', second', hrun', hrest', rfl⟩ | ⟨s', hrun', hstops', -⟩ :=
        runChildren_cons h' <;>
      rcases mem_runChildren_log heffect with heffect | ⟨p, e, hrun, heffect⟩
    · exact facts_mono (List.subset_append_left _ _)
        (hnode hmem hmem' hq hc hbound hscope hrun' hfact heffect)
    · obtain ⟨-, rfl⟩ := eval_followed hfamily hmem hmem' hq hc hbound hscope.toSync hrun hrun'
        (by simp)
      exact facts_mono (List.subset_append_right _ _)
        (ihnodes (fun n hn => @ih n (List.mem_cons_of_mem _ hn)) hrest' heffect)
    · exact hnode hmem hmem' hq hc hbound hscope hrun' hfact heffect
    · -- The first child continues on the left, so it does on the right.
      obtain ⟨hstatus, -⟩ := eval_followed hfamily hmem hmem' hq hc hbound hscope.toSync hrun hrun'
        (by simp)
      exact absurd hstatus (hstops' p)

theorem runIterations_facts {node : GraphNode} (ih : Followed levels engines node)
    {engine engine' : Engine} (hmem : engines engine) (hmem' : engines engine')
    {q c c' : HistoryPosition} (hq : levels q) (hc : Comparable q c c')
    (hbound : LeafBound engine c q) {m m' : EvalMode} {t t' : Traversal}
    (hscope : SameScope m m' c c' t t') {names : List NodeName} {untilGuard : Option Guard}
    {remaining iteration : Nat} {position position' : HistoryPosition} {context : Context}
    {exit' : LoopExit} {log' : List Effect}
    (h' : (engine'.runIterations names (engine'.eval node) untilGuard t' remaining iteration
      position' context).Returns exit' log') {effect : Effect} {fact : Fact}
    (hfact : effect.fact? = some fact)
    (heffect : effect ∈ (engine.runIterations names (engine.eval node) untilGuard t remaining
      iteration position context).log) : fact ∈ facts log' := by
  induction remaining generalizing iteration position position' context log' with
  | zero => cases heffect
  | succ remaining ihremaining =>
    have hcontext : iterationContext names t' context = iterationContext names t context := by
      rw [iterationContext, iterationContext, hscope.mapIndices]
    have hiteration := hscope.iteration iteration
    obtain ⟨p', e', first', second', hrun', rfl, hnext'⟩ | ⟨s', e', hrun', hstops', -⟩ :=
        runIterations_succ h' <;>
      rw [hcontext] at hrun' <;>
      rcases mem_runIterations_log heffect with heffect | ⟨p, e, hrun, hguard, heffect⟩
    · exact facts_mono (List.subset_append_left _ _)
        (ih hmem hmem' hq hc hbound hiteration hrun' hfact heffect)
    · obtain ⟨-, rfl⟩ :=
        eval_followed hfamily hmem hmem' hq hc hbound hiteration.toSync hrun hrun' (by simp)
      rw [← (hfamily.config hmem hmem').guard, ← hscope.mapIndices] at hnext'
      obtain ⟨hguard', -, -⟩ | ⟨-, hrest'⟩ := hnext'
      · rw [hguard] at hguard'
        cases hguard'
      · exact facts_mono (List.subset_append_right _ _) (ihremaining hrest' heffect)
    · exact ih hmem hmem' hq hc hbound hiteration hrun' hfact heffect
    · obtain ⟨hstatus, -⟩ :=
        eval_followed hfamily hmem hmem' hq hc hbound hiteration.toSync hrun hrun' (by simp)
      exact absurd hstatus (hstops' p)

theorem probes_within {engine : Engine} (hmem : engines engine) {nodes : List GraphNode}
    {context : Context} {t : Traversal} {q : HistoryPosition} (hbound : LeafBound engine t.cutoff q)
    {probes : List (Status × Context)} {plog : List Effect}
    (h : (probeParallel (nodes.map engine.child) context t).Returns probes plog) :
    ∀ probe ∈ probes, Within q probe.1 := by
  intro probe hprobe
  obtain ⟨k, hk⟩ := List.getElem?_of_mem hprobe
  obtain ⟨branch, inner, hbranch, hinner, -⟩ := forEach_get_result h hk
  obtain ⟨node, hnode, rfl⟩ := List.mem_map.mp (List.mem_of_getElem? hbranch)
  refine eval_within (hfamily.config hmem hmem).native node ?_ hinner
  exact hbound

omit hfamily in
/-- A fact of a branch is a fact of the second engine's probes. -/
theorem branch_facts {nodes : List GraphNode} (ih : ∀ n ∈ nodes, Followed levels engines n)
    {engine engine' : Engine} (hmem : engines engine) (hmem' : engines engine')
    {context : Context} {t' : Traversal} {probes' : List (Status × Context)}
    {plog' : List Effect}
    (hprobes' : (probeParallel (nodes.map engine'.child) context t').Returns probes' plog')
    {k : Nat} {branch : Child} {q c c' : HistoryPosition} {m : EvalMode} {t : Traversal}
    (hk : (nodes.map engine.child)[k]? = some branch) (hq : levels q)
    (hc : Comparable q c c') (hbound : LeafBound engine c q)
    (hscope : SameScope m .probe c c' t { t' with mode := .probe }) {effect : Effect} {fact : Fact}
    (hfact : effect.fact? = some fact)
    (heffect : effect ∈ (branch.run context.clearWrites t).log) : fact ∈ facts plog' := by
  rw [List.getElem?_map, Option.map_eq_some_iff] at hk
  obtain ⟨node, hnode, rfl⟩ := hk
  obtain ⟨r', inner', -, hinner', hsub⟩ := forEach_get hprobes'
    (by rw [List.getElem?_map, hnode]; rfl : (nodes.map engine'.child)[k]? = some _)
  have hfollowed : Followed levels engines node := ih node (List.mem_of_getElem? hnode)
  exact facts_mono hsub (hfollowed hmem hmem' hq hc hbound hscope hinner' hfact heffect)

/-- A fact of a parallel visit is one of the second engine's probes, or the join. -/
theorem parallel_probed {group : Group} {join : Join} {nodes : List GraphNode}
    (ih : ∀ n ∈ nodes, Followed levels engines n) {engine engine' : Engine}
    (hmem : engines engine) (hmem' : engines engine') {q c c' : HistoryPosition} (hq : levels q)
    (hc : Comparable q c c') (hbound : LeafBound engine c q) {m m' : EvalMode} {t t' : Traversal}
    (hscope : SameScope m m' c c' t t') {context : Context} {probes' : List (Status × Context)}
    {plog' : List Effect}
    (hprobes' : (probeParallel (nodes.map engine'.child) context t').Returns probes' plog')
    {effect : Effect} {fact : Fact} (hfact : effect.fact? = some fact)
    (hsource : ParallelSource engine group join (nodes.map engine.child) context t effect) :
    fact ∈ facts plog' ∨ ∃ probes plog,
      (probeParallel (nodes.map engine.child) context t).Returns probes plog ∧
      parallelJoinRequired join probes.length ≤
        (engine.completions join t.mapIndices probes).length ∧
      effect = joinRecord group t ((engine.winnersOf join t.mapIndices probes).map Prod.fst)
        (latest ((engine.winnersOf join t.mapIndices probes).map Prod.snd)) := by
  cases hsource with
  | probed k branch hk h =>
    exact .inl (branch_facts ih hmem hmem' hprobes' hk hq hc hbound hscope.probing hfact h)
  | decided k branch hk _ _ _ h =>
    have hcleared : effect ∈ (branch.run context.clearWrites t).log := by
      obtain ⟨node, -, rfl⟩ := List.mem_map.mp (List.mem_of_getElem? hk)
      exact (eval_clearWrites node context t).1 ▸ h
    exact .inl (branch_facts ih hmem hmem' hprobes' hk hq hc hbound hscope.probingRight hfact
      hcleared)
  | won k branch hk probes plog hprobes h =>
    generalize hposition : latest ((engine.winnersOf join t.mapIndices probes).map Prod.snd) =
      position at h
    have hle : position ≤ q := hposition ▸
      latest_winners_le (probes_within hfamily hmem (hscope.cutoff ▸ hbound) hprobes)
    have hcutoff : position ≤ c := hscope.cutoff ▸ hposition ▸
      latest_winners_le (probes_within hfamily hmem (leafBound_cutoff _) hprobes)
    have hlevel : levels position := (hfamily.down.resolve_left id) hq hle
    exact .inl (branch_facts ih hmem hmem' hprobes' hk hlevel (.inr ⟨le_rfl, hc.le hle hcutoff⟩)
      (leafBound_cutoff position) (hscope.winner position) hfact h)
  | joined probes plog hprobes hmany h => exact .inr ⟨probes, plog, hprobes, hmany, h⟩

theorem parallel_facts {group : Group} {join : Join} {nodes : List GraphNode}
    (ih : ∀ n ∈ nodes, Followed levels engines n) :
    Followed levels engines (.par group nodes join) := by
  intro engine engine' hmem hmem' q c c' hq hc hbound m m' context t₀ t₀' r' log' hscope₀ h' effect
    fact hfact heffect
  have hconfig := hfamily.config hmem hmem'
  obtain ⟨status', d'⟩ := r'
  rw [eval_par] at h' heffect
  have hscope := hscope₀.group group.name
  generalize enterGroup group.name t₀ = t at heffect hscope
  generalize enterGroup group.name t₀' = t' at h' hscope
  obtain ⟨probes', plog', hprobes', hrun'⟩ := evalParallel_returns h'
  have hsub : facts plog' ⊆ facts log' := by
    cases hrun' <;> exact facts_mono (List.subset_append_left _ _)
  rcases parallel_probed hfamily ih hmem hmem' hq hc hbound hscope hprobes' hfact
    (evalParallel_fact hfact heffect) with hprobed | ⟨probes, plog, hprobes, hmany, rfl⟩
  · exact hsub hprobed
  · -- The join is reached on the right too, with the same winners.
    have hknown : probes.map (known q) = probes'.map (known q) :=
      probes_known_eq (fun n _ => eval_tied_any hfamily n hmem hmem' hq hc .probe .probe)
        hscope.toSync hprobes hprobes'
    have hearly : parallelJoinRequired join probes.length ≤
        ((engine.parallelCompletions join t.mapIndices 0 probes).filter
          fun e => e.2 ≤ q).length := by
      rw [Engine.completions, List.length_insertionSort] at hmany
      rwa [List.filter_eq_self.mpr]
      rintro ⟨i, p⟩ hmem'
      obtain ⟨k, e, -, hk, -⟩ := mem_parallelCompletions.mp hmem'
      exact decide_eq_true (probes_within hfamily hmem (hscope.cutoff ▸ hbound) hprobes _
        (List.mem_of_getElem? hk) (by simp))
    obtain ⟨hwinners, -, -, hreached'⟩ := winners_eq hconfig hknown hearly
    rw [hscope.mapIndices] at hwinners hreached'
    cases hrun' with
    | opened _ hfew => exact absurd hfew (not_lt.mpr hreached')
    | unreachable _ hfew => exact absurd hfew (not_lt.mpr hreached')
    | reached position' joined' wlog' first' last' _ hposition' =>
      refine mem_facts.mpr ⟨_, ?_, hfact⟩
      rw [hposition', hscope.mapIndices, hwinners, joinRecord, joinRecord, hscope.mapIndices,
        hscope.loopIterations]
      simp

/-- A known terminal item is decided as it was probed. -/
theorem terminal_status {engine : Engine} (hmem : engines engine) {node : GraphNode}
    {context r : Context} {t : Traversal} {item : Value × Nat} {found status : Status}
    {inner : List Effect} (hterminal : found.isTerminal = true) (hlevel : levels found.position)
    (hprobe : (engine.eval node context.clearWrites
      (itemTraversal { t with mode := .probe } item)).Returns (found, r) inner)
    (hrun : t.mode = .probe ∧ status = found ∨ t.mode = .decide ∧ ∃ d log,
      (engine.eval node context (terminalTraversal t item found.position)).Returns (status, d)
        log) : status = found := by
  obtain ⟨-, rfl⟩ | ⟨hmode, d, log, hdecide⟩ := hrun
  · rfl
  have hne : found ≠ .pending := Status.ne_pending hterminal
  have hle : found.position ≤ t.cutoff := by
    refine eval_within (hfamily.config hmem hmem).native node ?_ hprobe hne
    exact leafBound_cutoff t.cutoff
  obtain ⟨⟨status', d'⟩, hcleared, hsame, -⟩ := (eval_clearWrites node _ _).returns hdecide
  have hsync : Sync .probe .decide t.cutoff found.position
      (itemTraversal { t with mode := .probe } item) (terminalTraversal t item found.position) :=
    ⟨rfl, rfl, rfl, hmode, rfl, rfl⟩
  obtain ⟨hfalse, -⟩ | hknown := eval_tied_any hfamily node hmem hmem hlevel (.inr ⟨hle, le_rfl⟩)
    .probe .decide _ _ _ hsync _ _ _ _ hprobe hcleared
  · exact hfalse.elim
  · have hnot : ¬ Late found.position found := by
      rintro (hpending | hlt)
      · exact hne hpending
      · exact lt_irrefl _ hlt
    exact hsame.trans (congrArg Prod.fst (eq_of_known_eq hknown hnot))

/-- A fact of a map visit is one of the second engine's probes, or the terminal item. -/
theorem map_probed {group : Group} {node : GraphNode} (ih : Followed levels engines node)
    {engine engine' : Engine} (hmem : engines engine) (hmem' : engines engine')
    {q c c' : HistoryPosition} (hq : levels q) (hc : Comparable q c c')
    (hbound : LeafBound engine c q) {m m' : EvalMode} {t t' : Traversal}
    (hscope : SameScope m m' c c' t t') {context : Context} {items : List Value}
    {probes' : List MapItemResult} {plog' : List Effect}
    (hprobes' : (evaluateMapItems (engine'.eval node) context { t' with mode := .probe }
      items).Returns probes' plog') {effect : Effect} {fact : Fact}
    (hfact : effect.fact? = some fact)
    (hsource : MapSource group (engine.child node) context t items effect) :
    fact ∈ facts plog' ∨ ∃ probes plog index found,
      (evaluateMapItems (engine.eval node) context { t with mode := .probe } items).Returns
        probes plog ∧ earliestTerminal 0 probes = some (index, found) ∧
      effect = itemRecord group t index found.position := by
  have hmode := (hfamily.config hmem hmem).native
  have hitem : ∀ {k : Nat} {item : Value} {q c : HistoryPosition} {m : EvalMode} {t : Traversal},
      items[k]? = some item → levels q → Comparable q c c' → LeafBound engine c q →
      SameScope m .probe c c' t (itemTraversal { t' with mode := .probe } (item, k)) →
      effect ∈ (engine.eval node context.clearWrites t).log → fact ∈ facts plog' := by
    intro k item q c m t hk hq hc hbound hscope heffect
    obtain ⟨result, inner', -, ⟨-, hinner'⟩, hsub⟩ := evaluateMapItems_get hprobes' hk
    exact facts_mono hsub (ih hmem hmem' hq hc hbound hscope hinner' hfact heffect)
  cases hsource with
  | probed k item hk h =>
    exact .inl (hitem hk hq hc hbound (hscope.probing.item' (item, k)) h)
  | decided k item hk _ _ _ h =>
    exact .inl (hitem hk hq hc hbound (hscope.probingRight.item' (item, k)) h)
  | terminal k item hk probes plog found hprobes hfound _ h =>
    obtain ⟨r, hr, rfl, hterminal⟩ := found_mem hfound
    have hne : r.status ≠ .pending := Status.ne_pending hterminal
    obtain ⟨item', inner, -, ⟨-, hprobe⟩, -⟩ := evaluateMapItems_get_result hprobes hr
    have hle : r.status.position ≤ q := by
      refine eval_within hmode node ?_ hprobe hne
      exact hscope.cutoff ▸ hbound
    have hcutoff : r.status.position ≤ c := by
      refine eval_within hmode node ?_ hprobe hne
      exact hscope.cutoff ▸ leafBound_cutoff t.cutoff
    have hlevel : levels r.status.position := (hfamily.down.resolve_left id) hq hle
    have hcleared : effect ∈ (engine.eval node context.clearWrites
        (terminalTraversal t (item, k) r.status.position)).log :=
      (eval_clearWrites node context _).1 ▸ h
    exact .inl (hitem hk hlevel (.inr ⟨le_rfl, hc.le hle hcutoff⟩) (leafBound_cutoff _)
      (hscope.terminalItem (item, k) _) hcleared)
  | ended k item hk probes plog found status hprobes hfound hrun h =>
    obtain ⟨r, hr, rfl, hterminal⟩ := found_mem hfound
    obtain ⟨item', inner, hk', ⟨-, hprobe⟩, -⟩ := evaluateMapItems_get_result hprobes hr
    rw [hk] at hk'
    cases hk'
    have hle : r.status.position ≤ q := by
      refine eval_within hmode node ?_ hprobe (Status.ne_pending hterminal)
      exact hscope.cutoff ▸ hbound
    have hlevel : levels r.status.position := (hfamily.down.resolve_left id) hq hle
    rw [terminal_status hfamily hmem hterminal hlevel hprobe hrun] at h
    exact .inr ⟨probes, plog, k, r.status, hprobes, hfound, h⟩

theorem map_facts {group : Group} {node : GraphNode} {overItems : DataSelector}
    {maxItems : PositiveInteger} (ih : Followed levels engines node) :
    Followed levels engines (.map group node overItems maxItems) := by
  intro engine engine' hmem hmem' q c c' hq hc hbound m m' context t₀ t₀' r' log' hscope₀ h' effect
    fact hfact heffect
  have hconfig := hfamily.config hmem hmem'
  obtain ⟨status', d'⟩ := r'
  rw [eval_map] at h' heffect
  have hscope := hscope₀.group group.name
  generalize enterGroup group.name t₀ = t at heffect hscope
  generalize enterGroup group.name t₀' = t' at h' hscope
  obtain ⟨selected, items, hselected, hitems, hfit, hsource⟩ := evalMap_fact hfact heffect
  obtain ⟨selected', items', hselected', hitems', hrun'⟩ := evalMap_returns h'
  rw [hscope.item, hselected'] at hselected
  cases hselected
  rw [hitems'] at hitems
  cases hitems
  obtain ⟨hmany, -, -, -⟩ | ⟨-, probes', plog', hprobes', hrun'⟩ := hrun'
  · exact absurd hmany (by omega)
  have hsub : facts plog' ⊆ facts log' := by
    cases hrun' <;> exact facts_mono (List.subset_append_left _ _)
  rcases map_probed hfamily ih hmem hmem' hq hc hbound hscope hprobes' hfact hsource with
    hprobed | ⟨probes, plog, index, found, hprobes, hfound, rfl⟩
  · exact hsub hprobed
  · -- The second engine finds the same terminal item.
    have hlength : probes.length = probes'.length := by
      rw [evaluateMapItems_length hprobes, evaluateMapItems_length hprobes']
    have hknown : ∀ (k : Nat) (r r' : MapItemResult), probes[k]? = some r →
        probes'[k]? = some r' → known q r.pair = known q r'.pair := by
      intro k r r' hr hr'
      obtain ⟨⟨hfalse, -⟩ | hknown, -⟩ :=
        items_tied (eval_tied_any hfamily node hmem hmem' hq hc .probe .probe)
          hscope.probing.toSync hprobes hprobes' hr hr'
      · exact hfalse.elim
      · exact hknown
    obtain ⟨r, hr, rfl, hterminal⟩ := found_mem hfound
    have hne : r.status ≠ .pending := Status.ne_pending hterminal
    obtain ⟨item, inner, hk, ⟨-, hprobe⟩, -⟩ := evaluateMapItems_get_result hprobes hr
    have hle : r.status.position ≤ q := by
      refine eval_within hconfig.native node ?_ hprobe hne
      exact hscope.cutoff ▸ hbound
    have hlevel : levels r.status.position := (hfamily.down.resolve_left id) hq hle
    have hfound' : earliestTerminal 0 probes' = some (index, r.status) := by
      refine earliestTerminal_known hlength hknown hfound ?_
      exact not_late_of_within (fun _ => hle) le_rfl hne
    obtain ⟨r', hr', hstatus', -⟩ := found_mem hfound'
    obtain ⟨item₁, inner', hk₁, ⟨-, hprobe'⟩, -⟩ := evaluateMapItems_get_result hprobes' hr'
    rw [hk] at hk₁
    cases hk₁
    rw [hstatus'] at hprobe'
    cases hrun' with
    | pending _ _ hnone =>
      rw [hfound'] at hnone
      cases hnone
    | finished _ _ _ _ hnone =>
      rw [hfound'] at hnone
      cases hnone
    | terminal _ _ item₂ _ dlog' hfound₂ hk₂ hdecide' =>
      rw [hfound'] at hfound₂
      cases hfound₂
      rw [hk] at hk₂
      cases hk₂
      have hstatus' : status' = r.status := terminal_status hfamily hmem' hterminal hlevel
        hprobe' (hdecide'.imp (fun h => ⟨h.1, h.2.1⟩)
          fun ⟨hmode, d, hrun⟩ => ⟨hmode, d, _, hrun⟩)
      refine mem_facts.mpr ⟨_, ?_, hfact⟩
      rw [hstatus', itemRecord, itemRecord, hscope.mapIndices, hscope.loopIterations]
      simp

/-- **An evaluation without later outcomes comes across no fact of its own**, even if it fails. -/
theorem eval_facts (node : GraphNode) : Followed levels engines node := by
  induction node using GraphNode.induct with
  | step node =>
    intro engine engine' hmem hmem' q c c' hq hc hbound m m' context t t' r' log' hscope h' effect
      fact hfact heffect
    exact executable_facts hfamily hmem hmem' hscope h' hfact heffect
  | verifier node =>
    intro engine engine' hmem hmem' q c c' hq hc hbound m m' context t t' r' log' hscope h' effect
      fact hfact heffect
    exact executable_facts hfamily hmem hmem' hscope h' hfact heffect
  | seq group children ih =>
    intro engine engine' hmem hmem' q c c' hq hc hbound m m' context t t' r' log' hscope h' effect
      fact hfact heffect
    obtain ⟨status', d'⟩ := r'
    rw [eval_seq] at h' heffect
    obtain ⟨local', first', second', hrun', -, rfl, -⟩ := evalSequence_returns h'
    exact facts_mono (List.subset_append_left _ _)
      (runChildren_facts hfamily (fun n hn => @ih n hn) hmem hmem' hq hc hbound hscope hrun' hfact
        (evalSequence_fact hfact heffect))
  | choice group branches otherwise ihbranches ihotherwise =>
    intro engine engine' hmem hmem' q c c' hq hc hbound m m' context t t' r' log' hscope h' effect
      fact hfact heffect
    obtain ⟨status', d'⟩ := r'
    obtain ⟨node, hnode, heffect⟩ := evalChoice_fact hfact heffect
    obtain ⟨node', local', first', second', hnode', hrun', -, rfl, -⟩ :=
      eval_choice_returns engine' h'
    rw [← (hfamily.config hmem hmem').selectNode, ← hscope.mapIndices, hnode] at hnode'
    cases hnode'
    have hfollowed : Followed levels engines node := by
      rcases selectNode_mem hnode with ⟨b, hb, rfl⟩ | hother
      · exact ihbranches b hb
      · exact ihotherwise node hother
    exact facts_mono (List.subset_append_left _ _)
      (hfollowed hmem hmem' hq hc hbound hscope hrun' hfact heffect)
  | par group branches join ih => exact parallel_facts hfamily fun n hn => @ih n hn
  | loop group body untilGuard maxIterations maxIterationsInput ih =>
    intro engine engine' hmem hmem' q c c' hq hc hbound m m' context t t' r' log' hscope h' effect
      fact hfact heffect
    obtain ⟨status', d'⟩ := r'
    rw [eval_loop] at h' heffect
    obtain ⟨exit', first', second', hrun', -, rfl, -⟩ := evalLoop_returns h'
    exact facts_mono (List.subset_append_left _ _)
      (runIterations_facts hfamily ih hmem hmem' hq hc hbound hscope hrun' hfact
        (evalLoop_fact hfact heffect))
  | map group body overItems maxItems ih => exact map_facts hfamily ih
  | succeed node =>
    intro engine engine' hmem hmem' q c c' hq hc hbound m m' context t t' r' log' hscope h' effect
      fact hfact heffect
    exact (evalSucceed_fact heffect).elim
  | fail node =>
    intro engine engine' hmem hmem' q c c' hq hc hbound m m' context t t' r' log' hscope h' effect
      fact hfact heffect
    cases heffect

end

end Zeroshot
