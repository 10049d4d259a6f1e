import Zeroshot.Reducer.Visits

set_option autoImplicit false

/-!
# Fresh visit numbers

A parallel group that needs all of its branches, cannot race and has no terminal inside keeps the
facts of every branch. When all parallel groups below a node do, the counters at its exit cover
every visit made inside (`eval_counted`), so a loop over such a body numbers the visits of one
occurrence differently in different iterations (`eval_fresh`).
-/

namespace Zeroshot

open Logged

/-! ## Names -/

namespace GraphNode

/-- No two nodes of the tree have the same name. -/
def UniqueNames (node : GraphNode) : Prop := node.names.Nodup

theorem names_eq (node : GraphNode) : node.names = node.name :: node.children.flatMap names := by
  rw [names, descendants_eq, List.map_cons, List.map_flatMap]
  rfl

theorem UniqueNames.child {node child : GraphNode} (h : node.UniqueNames)
    (hchild : child ∈ node.children) : child.UniqueNames := by
  rw [UniqueNames, names_eq, List.nodup_cons, List.nodup_flatMap] at h
  exact h.2.1 child hchild

/-- A name below one child is not below another. -/
theorem UniqueNames.index_eq {node : GraphNode} (h : node.UniqueNames) {i j : Nat}
    {first second : GraphNode} (hi : node.children[i]? = some first)
    (hj : node.children[j]? = some second) {name : NodeName} (hfirst : name ∈ first.names)
    (hsecond : name ∈ second.names) : i = j := by
  rw [UniqueNames, names_eq, List.nodup_cons, List.nodup_flatMap] at h
  have hpairwise := List.pairwise_iff_getElem.mp h.2.2
  obtain ⟨hilt, rfl⟩ := List.getElem?_eq_some_iff.mp hi
  obtain ⟨hjlt, rfl⟩ := List.getElem?_eq_some_iff.mp hj
  rcases Nat.lt_trichotomy i j with hlt | heq | hlt
  · exact absurd hsecond (hpairwise i j hilt hjlt hlt hfirst)
  · exact heq
  · exact absurd hfirst (hpairwise j i hjlt hilt hlt hsecond)

/-- The tree has a node that ends the run. -/
def hasTerminal (node : GraphNode) : Bool := node.descendants.any isTerminal

theorem hasTerminal_of_child {node child : GraphNode} (hchild : child ∈ node.children)
    (h : child.hasTerminal = true) : node.hasTerminal = true := by
  obtain ⟨d, hd, hterminal⟩ := List.any_eq_true.mp h
  refine List.any_eq_true.mpr ⟨d, ?_, hterminal⟩
  rw [descendants_eq]
  exact List.mem_cons_of_mem _ (List.mem_flatMap.mpr ⟨child, hchild, hd⟩)

/-- A parallel group that keeps the facts of all its branches: it needs every branch, does not
race, and no branch can end the run. -/
def keepsBranches : GraphNode → Bool
  | .par _ branches join =>
    (match join with
      | .first _ => false
      | .all | .any | .quorum _ =>
        decide (Engine.parallelJoinRequired join branches.length = branches.length)) &&
      !branches.any hasTerminal
  | _ => true

/-- Every parallel group of the tree keeps the facts of its branches. -/
def raceFree (node : GraphNode) : Bool := node.descendants.all keepsBranches

/-- No loop of the tree repeats a body with a race in it. -/
def raceFreeLoops (node : GraphNode) : Bool :=
  node.descendants.all fun
    | .loop _ body _ maxIterations _ => maxIterations.get == 1 || body.raceFree
    | _ => true

theorem all_child {node child : GraphNode} {p : GraphNode → Bool} (hchild : child ∈ node.children)
    (h : node.descendants.all p = true) : child.descendants.all p = true := by
  rw [List.all_eq_true] at h ⊢
  intro d hd
  refine h d ?_
  rw [descendants_eq]
  exact List.mem_cons_of_mem _ (List.mem_flatMap.mpr ⟨child, hchild, hd⟩)

theorem all_self {node : GraphNode} {p : GraphNode → Bool} (h : node.descendants.all p = true) :
    p node = true := by
  refine List.all_eq_true.mp h node ?_
  rw [descendants_eq]
  exact List.mem_cons_self

end GraphNode

namespace Engine

variable {engine : Engine}

/-! ## Terminal statuses -/

theorem runChildren_terminal {children : List Evaluator} {position : HistoryPosition}
    {context c : Context} {t : Traversal} {status : Status} {log : List Effect}
    (h : (runChildren children position context t).Returns (status, c) log)
    (hterminal : status.isTerminal = true) : ∃ child ∈ children, ∃ context s c log,
      (child context t).Returns (s, c) log ∧ s.isTerminal = true := by
  induction children generalizing position context log with
  | nil =>
    obtain ⟨rfl, -, -⟩ := runChildren_nil h
    cases hterminal
  | cons child rest ih =>
    obtain ⟨p, c', first, second, -, hrest, -⟩ | ⟨s, hrun, -, rfl⟩ := runChildren_cons h
    · obtain ⟨child', hchild', hrest⟩ := ih hrest
      exact ⟨child', List.mem_cons_of_mem _ hchild', hrest⟩
    · refine ⟨child, List.mem_cons_self, _, s, _, _, hrun, ?_⟩
      rwa [isTerminal_after] at hterminal

theorem runIterations_terminal {names : List NodeName} {body : Evaluator}
    {untilGuard : Option Guard} {t : Traversal} {remaining iteration : Nat}
    {position : HistoryPosition} {context : Context} {s : Status} {log : List Effect}
    (h : (engine.runIterations names body untilGuard t remaining iteration position
      context).Returns (.stopped s) log) (hterminal : s.isTerminal = true) :
    ∃ i context s c log, (body context (iterationTraversal t i)).Returns (s, c) log ∧
      s.isTerminal = true := by
  induction remaining generalizing iteration position context log with
  | zero =>
    obtain ⟨hr, -⟩ := returns_pure.mp h
    cases hr
  | succ remaining ih =>
    obtain ⟨p, c, first, second, -, -, hnext⟩ | ⟨s', c, hrun, -, hexit⟩ := runIterations_succ h
    · obtain ⟨-, hexit, -⟩ | ⟨-, hrest⟩ := hnext
      · cases hexit
      · exact ih hrest
    · cases hexit
      refine ⟨iteration, _, s', c, _, hrun, ?_⟩
      rwa [isTerminal_after] at hterminal

theorem runIterations_stops {names : List NodeName} {body : Evaluator}
    {untilGuard : Option Guard} {t : Traversal} {remaining iteration : Nat}
    {position : HistoryPosition} {context : Context} {s : Status} {log : List Effect}
    (h : (engine.runIterations names body untilGuard t remaining iteration position
      context).Returns (.stopped s) log) : s.Stops := by
  induction remaining generalizing iteration position context log with
  | zero =>
    obtain ⟨hr, -⟩ := returns_pure.mp h
    cases hr
  | succ remaining ih =>
    obtain ⟨p, c, first, second, -, -, hnext⟩ | ⟨s', c, -, hstops, hexit⟩ := runIterations_succ h
    · obtain ⟨-, hexit, -⟩ | ⟨-, hrest⟩ := hnext
      · cases hexit
      · exact ih hrest
    · cases hexit
      cases s' with
      | pending => exact Status.stops_pending
      | continuing p => exact absurd rfl (hstops p)
      | terminal p r => exact Status.stops_terminal _ _

/-- A terminal status comes from a terminal node. -/
theorem eval_hasTerminal (hmode : engine.executionMode = .nativeV2) (node : GraphNode) :
    ∀ {context c : Context} {t : Traversal} {status : Status} {log : List Effect},
      (engine.eval node context t).Returns (status, c) log → status.isTerminal = true →
        node.hasTerminal = true := by
  induction node using GraphNode.induct with
  | step node =>
    intro context c t status log h hterminal
    obtain ⟨number, input, rest, -, -, -, -, hresult, -⟩ := evalExecutable_returns hmode h
    obtain ⟨-, rfl, -⟩ | ⟨p, o, applied, -, rfl, -⟩ := leafResult_returns hresult <;>
      cases hterminal
  | verifier node =>
    intro context c t status log h hterminal
    obtain ⟨number, input, rest, -, -, -, -, hresult, -⟩ := evalExecutable_returns hmode h
    obtain ⟨-, rfl, -⟩ | ⟨p, o, applied, -, rfl, -⟩ := leafResult_returns hresult <;>
      cases hterminal
  | seq group children ih =>
    intro context c t status log h hterminal
    rw [eval_seq] at h
    obtain ⟨local', first, second, hchildren, -, -, -⟩ := evalSequence_returns h
    obtain ⟨child, hchild, context', s, c', log', hrun, hs⟩ :=
      runChildren_terminal hchildren hterminal
    obtain ⟨node, hnode, rfl⟩ := List.mem_map.mp hchild
    have hchildren : node ∈ (GraphNode.seq group children).children := hnode
    exact GraphNode.hasTerminal_of_child hchildren (ih node hnode hrun hs)
  | choice group branches otherwise ihbranches ihotherwise =>
    intro context c t status log h hterminal
    obtain ⟨node, local', first, second, hnode, hrun, -, -, -⟩ := eval_choice_returns engine h
    have hchild : node ∈ (GraphNode.choice group branches otherwise).children :=
      selectNode_child hnode
    refine GraphNode.hasTerminal_of_child hchild ?_
    rcases selectNode_mem hnode with ⟨b, hb, rfl⟩ | hother
    · exact ihbranches b hb hrun hterminal
    · exact ihotherwise node hother hrun hterminal
  | par group branches join ih =>
    intro context c t status log h hterminal
    rw [eval_par] at h
    obtain ⟨probes, plog, hprobes, hrun⟩ := evalParallel_returns h
    cases hrun <;> cases hterminal
  | loop group body untilGuard maxIterations maxIterationsInput ih =>
    intro context c t status log h hterminal
    rw [eval_loop] at h
    obtain ⟨exit, first, second, hiterations, hclose, -, -⟩ := evalLoop_returns h
    cases exit with
    | stopped s =>
      cases hclose
      obtain ⟨i, context', s, c', log', hrun, hs⟩ := runIterations_terminal hiterations hterminal
      refine GraphNode.hasTerminal_of_child ?_ (ih hrun hs)
      exact List.mem_singleton_self body
    | completed local' position label =>
      simp only [closeLoop, except_bind_eq_ok] at hclose
      obtain ⟨_, -, hr⟩ := hclose
      cases hr
      cases hterminal
  | map group body overItems maxItems ih =>
    intro context c t status log h hterminal
    rw [eval_map] at h
    obtain ⟨selected, items, -, -, hmap⟩ := evalMap_returns h
    obtain ⟨-, rfl, -, -⟩ | ⟨-, probes, plog, hprobes, hrun⟩ := hmap
    · cases hterminal
    have hchild : body ∈ (GraphNode.map group body overItems maxItems).children :=
      List.mem_singleton_self body
    refine GraphNode.hasTerminal_of_child hchild ?_
    cases hrun with
    | terminal index found item s dlog hfound _ hdecide =>
      obtain ⟨-, rfl, -⟩ | ⟨-, c', hagain⟩ := hdecide
      · obtain ⟨r, hr, rfl, -⟩ := found_mem hfound
        obtain ⟨item', inner, -, ⟨-, hinner⟩, -⟩ := evaluateMapItems_get_result hprobes hr
        exact ih hinner hterminal
      · exact ih hagain hterminal
    | pending => cases hterminal
    | finished => cases hterminal
  | succeed node => exact fun _ _ => rfl
  | fail node => exact fun _ _ => rfl

/-! ## Merged counters -/

theorem joinContexts_visits {group : Group} {mapIndices : List Nat} {joined c : Context}
    {winners : List (GraphNode × Context)} {occurrence : StructuralOccurrence} {number : Nat}
    (h : joinContexts group mapIndices winners joined = .ok c)
    (hscoped : ∀ w ∈ winners, InScope w.1.names mapIndices occurrence →
      w.2.visits occurrence = number)
    (hle : joined.visits occurrence ≤ number)
    (hone : joined.visits occurrence = number ∨
      ∃ w ∈ winners, InScope w.1.names mapIndices occurrence) :
    c.visits occurrence = number := by
  induction winners generalizing joined with
  | nil =>
    cases h
    obtain hone | ⟨w, hw, -⟩ := hone
    · exact hone
    · cases hw
  | cons winner winners ih =>
    obtain ⟨node, local'⟩ := winner
    simp only [joinContexts, except_bind_eq_ok] at h
    obtain ⟨copied, hcopied, hrest⟩ := h
    have hsame : copied.visits occurrence = joined.visits occurrence := by
      simp only [Context.visits, copyWrites_controls hcopied]
    have htail : ∀ w ∈ winners, InScope w.1.names mapIndices occurrence →
        w.2.visits occurrence = number := fun w hw => hscoped w (List.mem_cons_of_mem _ hw)
    by_cases hin : InScope node.names mapIndices occurrence
    · have hlocal : local'.visits occurrence = number := hscoped _ List.mem_cons_self hin
      have hmerged : (mergeScopedRuntimeFacts node.names mapIndices local' copied).visits
          occurrence = number := by
        rw [visits_mergeScoped_of_inScope hin, hlocal]
        rw [hsame, hlocal]
        exact hle
      exact ih hrest htail hmerged.le (.inl hmerged)
    · have hmerged : (mergeScopedRuntimeFacts node.names mapIndices local' copied).visits
          occurrence = joined.visits occurrence := by
        rw [visits_mergeScoped_of_not hin, hsame]
      refine ih hrest htail (hmerged ▸ hle) ?_
      rw [hmerged]
      obtain hone | ⟨w, hw, hwin⟩ := hone
      · exact .inl hone
      · rcases List.mem_cons.mp hw with rfl | hw
        · exact absurd hwin hin
        · exact .inr ⟨w, hw, hwin⟩

theorem mergeItems_visits {names : List NodeName} {results : List MapItemResult}
    {context : Context} {occurrence : StructuralOccurrence} {number : Nat}
    (hscoped : ∀ r ∈ results, InScope names r.scope occurrence →
      r.context.visits occurrence = number)
    (hle : context.visits occurrence ≤ number)
    (hone : context.visits occurrence = number ∨
      ∃ r ∈ results, InScope names r.scope occurrence) :
    (mergeItems names results context).visits occurrence = number := by
  induction results generalizing context with
  | nil =>
    obtain hone | ⟨r, hr, -⟩ := hone
    · exact hone
    · cases hr
  | cons result results ih =>
    have htail : ∀ r ∈ results, InScope names r.scope occurrence →
        r.context.visits occurrence = number := fun r hr => hscoped r (List.mem_cons_of_mem _ hr)
    by_cases hin : InScope names result.scope occurrence
    · have hlocal := hscoped _ List.mem_cons_self hin
      have hmerged : (mergeScopedRuntimeFacts names result.scope result.context context).visits
          occurrence = number := by
        rw [visits_mergeScoped_of_inScope hin (hlocal ▸ hle), hlocal]
      exact ih htail hmerged.le (.inl hmerged)
    · have hmerged : (mergeScopedRuntimeFacts names result.scope result.context context).visits
          occurrence = context.visits occurrence := visits_mergeScoped_of_not hin
      refine ih htail (hmerged ▸ hle) ?_
      rw [hmerged]
      obtain hone | ⟨r, hr, hrin⟩ := hone
      · exact .inl hone
      · rcases List.mem_cons.mp hr with rfl | hr
        · exact absurd hrin hin
        · exact .inr ⟨r, hr, hrin⟩

/-! ## Joins that need every branch -/

theorem parallelCompletions_length_le {join : Join} {mapIndices : List Nat} {start : Nat}
    {probes : List (Status × Context)} :
    (engine.parallelCompletions join mapIndices start probes).length ≤ probes.length := by
  induction probes generalizing start with
  | nil => exact Nat.le_refl 0
  | cons probe probes ih =>
    obtain ⟨status, d⟩ := probe
    have hrest := @ih (start + 1)
    cases status with
    | pending => exact hrest.trans (Nat.le_succ _)
    | terminal p r => exact hrest.trans (Nat.le_succ _)
    | continuing p =>
      rw [parallelCompletions]
      split
      · exact Nat.succ_le_succ hrest
      · exact hrest.trans (Nat.le_succ _)

/-- As many completions as probes: every probe completes. -/
theorem completion_of_length {join : Join} {mapIndices : List Nat} {start : Nat}
    {probes : List (Status × Context)}
    (h : probes.length ≤ (engine.parallelCompletions join mapIndices start probes).length)
    {k : Nat} (hk : k < probes.length) :
    ∃ p, (start + k, p) ∈ engine.parallelCompletions join mapIndices start probes := by
  induction probes generalizing start k with
  | nil => cases hk
  | cons probe probes ih =>
    obtain ⟨status, d⟩ := probe
    have hle := @parallelCompletions_length_le engine join mapIndices (start + 1) probes
    cases status with
    | pending => exact absurd (h.trans hle) (Nat.not_succ_le_self _)
    | terminal p r => exact absurd (h.trans hle) (Nat.not_succ_le_self _)
    | continuing p =>
      rw [parallelCompletions] at h ⊢
      split at h
      case isFalse => exact absurd (h.trans hle) (Nat.not_succ_le_self _)
      case isTrue hsatisfies =>
        rw [if_pos hsatisfies]
        cases k with
        | zero => exact ⟨p, List.mem_cons_self⟩
        | succ k =>
          obtain ⟨q, hq⟩ := ih (Nat.succ_le_succ_iff.mp h) (Nat.succ_lt_succ_iff.mp hk)
          refine ⟨q, List.mem_cons_of_mem _ ?_⟩
          rwa [Nat.add_right_comm] at hq

/-- A join that needs every branch, once reached, is won by all of them. -/
theorem mem_winners_of_required {join : Join} {mapIndices : List Nat}
    {probes : List (Status × Context)}
    (hrequired : parallelJoinRequired join probes.length = probes.length)
    (h : parallelJoinRequired join probes.length ≤
      (engine.completions join mapIndices probes).length) {k : Nat} (hk : k < probes.length) :
    ∃ p, (k, p) ∈ engine.winnersOf join mapIndices probes := by
  rw [hrequired] at h
  have hlength : (engine.completions join mapIndices probes).length =
      (engine.parallelCompletions join mapIndices 0 probes).length :=
    List.length_insertionSort _ _
  obtain ⟨p, hp⟩ := completion_of_length (hlength ▸ h) hk
  rw [Nat.zero_add] at hp
  refine ⟨p, ?_⟩
  rw [winnersOf, hrequired, List.take_of_length_le
    (hlength.trans_le parallelCompletions_length_le)]
  exact (List.mem_insertionSort _).mpr hp

/-- Completions of a join that does not race: all the probes, when none stops. -/
theorem parallelCompletions_length {join : Join} {mapIndices : List Nat} {start : Nat}
    {probes : List (Status × Context)} (hjoin : ∀ guard, join ≠ .first guard)
    (hprobes : ∀ probe ∈ probes, ∃ p, probe.1 = .continuing p) :
    (engine.parallelCompletions join mapIndices start probes).length = probes.length := by
  induction probes generalizing start with
  | nil => rfl
  | cons probe probes ih =>
    obtain ⟨status, d⟩ := probe
    obtain ⟨p, hp⟩ := hprobes _ List.mem_cons_self
    cases hp
    have hsatisfies : engine.satisfiesJoin join mapIndices d = true := by
      cases join with
      | first guard => exact absurd rfl (hjoin guard)
      | all | any | quorum => rfl
    rw [parallelCompletions, if_pos hsatisfies, List.length_cons, List.length_cons,
      ih fun probe hprobe => hprobes probe (List.mem_cons_of_mem _ hprobe)]

end Engine

/-! ## Visits made again -/

/-- The visits differ in their inputs and executions only. -/
structure Visit.Same (v v' : Visit) : Prop where
  occurrence : v.occurrence = v'.occurrence
  loopIterations : v.loopIterations = v'.loopIterations
  number : v.number = v'.number

theorem exists_visit_of_mem_facts {log : List Effect} {v : Visit}
    (h : Fact.visited v.occurrence v.loopIterations v.number v.input ∈ facts log) :
    ∃ v', .visit v' ∈ log ∧ v'.Same v := by
  obtain ⟨effect, hmem, heffect⟩ := mem_facts.mp h
  cases effect with
  | visit v' =>
    simp only [Effect.fact?, Option.some.injEq, Fact.visited.injEq] at heffect
    obtain ⟨hoccurrence, hiterations, hnumber, -⟩ := heffect
    exact ⟨v', hmem, hoccurrence, hiterations, hnumber⟩
  | joined | itemTerminated | dispatch | void | decision => cases heffect

/-! ## Counters cover the visits -/

/-- The counters of the context have seen every visit of the log. -/
def Covers (c : Context) (log : List Effect) : Prop :=
  ∀ v, Effect.visit v ∈ log → v.number ≤ c.visits v.occurrence

namespace Covers

variable {c : Context} {log : List Effect}

theorem nil : Covers c [] := fun _ h => by cases h

theorem of_same {log' : List Effect} (h : Covers c log')
    (hsub : ∀ v, .visit v ∈ log → ∃ v', .visit v' ∈ log' ∧ v'.Same v) : Covers c log := by
  intro v hv
  obtain ⟨v', hv', hsame⟩ := hsub v hv
  have hle := h v' hv'
  rwa [hsame.number, hsame.occurrence] at hle

theorem of_decisions (h : Decisions log) : Covers c log := by
  intro v hv
  obtain ⟨d, hd, -⟩ := h _ hv
  cases hd

theorem append {log' : List Effect} (h : Covers c log) (h' : Covers c log') :
    Covers c (log ++ log') := fun v hv => (List.mem_append.mp hv).elim (h v) (h' v)

theorem of_counts {c' : Context} (h : Covers c log) (hcounts : Counts c c') : Covers c' log :=
  fun v hv => (h v hv).trans (hcounts v.occurrence)

end Covers

namespace Engine

/-! ## Race-free nodes -/

theorem evalExecutable_covers {engine : Engine} (hmode : engine.executionMode = .nativeV2)
    {spec : ExecutableSpec} {context c : Context} {t : Traversal} {status : Status}
    {log : List Effect} (h : (engine.evalExecutable spec context t).Returns (status, c) log) :
    Covers c log := by
  obtain ⟨number, -, -, rfl, -, -, -, hresult, -⟩ := evalExecutable_returns hmode h
  have hmarked := visits_markVisit_self spec.name t.mapIndices
    (nextVisit spec.name t.mapIndices context.controls) context
  have hnumber : c.visits ⟨spec.name, t.mapIndices⟩ =
      nextVisit spec.name t.mapIndices context.controls := by
    obtain ⟨-, -, rfl⟩ | ⟨q, o, applied, -, -, happlied⟩ := leafResult_returns hresult
    · exact hmarked
    · rw [applyOutcome_sameCounts happlied, hmarked]
  intro v hv
  obtain ⟨input, -, heffect⟩ := evalExecutable_fact hmode rfl (h.log_eq ▸ hv)
  cases heffect
  exact hnumber.ge

theorem runChildren_covers {engine : Engine} (hmode : engine.executionMode = .nativeV2)
    {nodes : List GraphNode} {t : Traversal}
    (hnodes : ∀ n ∈ nodes, ∀ context p c log,
      (engine.eval n context t).Returns (.continuing p, c) log → Covers c log)
    {position p : HistoryPosition} {context c : Context} {log : List Effect}
    (h : (runChildren (nodes.map engine.eval) position context t).Returns (.continuing p, c)
      log) : Covers c log := by
  induction nodes generalizing position context log with
  | nil =>
    obtain ⟨-, -, rfl⟩ := runChildren_nil h
    exact .nil
  | cons node nodes ih =>
    obtain ⟨p', c', first, second, hrun, hrest, rfl⟩ | ⟨s, hrun, hstops, hs⟩ := runChildren_cons h
    · have hsecond := ih (fun n hn => hnodes n (List.mem_cons_of_mem _ hn)) hrest
      refine .append ?_ hsecond
      refine (hnodes node List.mem_cons_self _ _ _ _ hrun).of_counts ?_
      refine runChildren_counts ?_ hrest
      intro child hchild context status c log hrun
      obtain ⟨n, -, rfl⟩ := List.mem_map.mp hchild
      exact eval_counts hmode n hrun
    · cases s with
      | pending => cases hs
      | continuing p' => exact absurd rfl (hstops p')
      | terminal p' r => cases hs

theorem runIterations_covers {engine : Engine} (hmode : engine.executionMode = .nativeV2)
    {names : List NodeName} {node : GraphNode} {untilGuard : Option Guard} {t : Traversal}
    (hbody : ∀ iteration context p c log,
      (engine.eval node context (iterationTraversal t iteration)).Returns (.continuing p, c) log →
        Covers c log)
    {remaining iteration : Nat} {position : HistoryPosition} {context local' : Context}
    {p : HistoryPosition} {label : String} {log : List Effect}
    (h : (engine.runIterations names (engine.eval node) untilGuard t remaining iteration position
      context).Returns (.completed local' p label) log) : Covers local' log := by
  induction remaining generalizing iteration position context log with
  | zero =>
    obtain ⟨-, rfl⟩ := returns_pure.mp h
    exact .nil
  | succ remaining ih =>
    obtain ⟨p', c, first, second, hrun, rfl, hnext⟩ | ⟨s, c, -, -, hexit⟩ := runIterations_succ h
    · have hfirst := hbody _ _ _ _ _ hrun
      obtain ⟨-, hexit, rfl⟩ | ⟨-, hrest⟩ := hnext
      · cases hexit
        rwa [List.append_nil]
      · refine .append (hfirst.of_counts ?_) (ih hrest)
        exact runIterations_counts (fun _ _ _ _ _ hrun => eval_counts hmode node hrun) hrest
    · cases hexit

section

variable {levels : HistoryPosition → Prop} {engines : Engine → Prop}
  (hfamily : EngineFamily False levels engines)
include hfamily

/-- A winner is evaluated again as it was probed. -/
theorem winner_again {engine : Engine} (hmem : engines engine) {node : GraphNode}
    {context d : Context} {t : Traversal} {p position : HistoryPosition} (hle : p ≤ position)
    (hcutoff : position ≤ t.cutoff) (hlevel : levels position) {r : Status × Context}
    {plog log : List Effect}
    (hprobe : (engine.eval node context { t with mode := .probe }).Returns (.continuing p, d) plog)
    (hagain : (engine.eval node context { t with cutoff := position }).Returns r log) :
    r = (.continuing p, d) := by
  have hsync : Sync .probe t.mode t.cutoff position { t with mode := .probe }
      { t with cutoff := position } := ⟨rfl, rfl, rfl, rfl, rfl, rfl⟩
  obtain ⟨hfalse, -⟩ | hknown := eval_tied_any hfamily node hmem hmem hlevel
    (.inr ⟨hcutoff, le_rfl⟩) .probe t.mode _ _ _ hsync _ _ _ _ hprobe hagain
  · exact hfalse.elim
  · refine eq_of_known_eq hknown ?_
    rw [late_continuing]
    exact not_lt.mpr hle

omit hfamily in
/-- The probes of a group that keeps its branches do not end the run. -/
theorem probes_not_terminal {engine : Engine} (hmode : engine.executionMode = .nativeV2)
    {nodes : List GraphNode} (hnone : nodes.any GraphNode.hasTerminal = false) {context : Context}
    {t : Traversal} {probes : List (Status × Context)} {plog : List Effect}
    (hprobes : (probeParallel (nodes.map engine.child) context t).Returns probes plog) :
    ∀ probe ∈ probes, probe.1.isTerminal = false := by
  rintro ⟨s, d⟩ hprobe
  obtain ⟨k, hk⟩ := List.getElem?_of_mem hprobe
  obtain ⟨branch, inner, hbranch, hinner, -⟩ := forEach_get_result hprobes hk
  obtain ⟨node, hnode, rfl⟩ := List.mem_map.mp (List.mem_of_getElem? hbranch)
  rw [← Bool.not_eq_true]
  intro hterminal
  have hnode' := eval_hasTerminal hmode node hinner hterminal
  rw [List.any_eq_false] at hnone
  exact hnone node hnode hnode'

omit hfamily in
/-- A join of branches that all complete is reached, unless it is a race. -/
theorem completions_length {engine : Engine} {join : Join} {mapIndices : List Nat}
    {probes : List (Status × Context)} (hjoin : ∀ guard, join ≠ .first guard)
    (hsettled : ∀ probe ∈ probes, probe.1 ≠ .pending)
    (hterminal : ∀ probe ∈ probes, probe.1.isTerminal = false) :
    (engine.completions join mapIndices probes).length = probes.length := by
  rw [Engine.completions, List.length_insertionSort]
  refine parallelCompletions_length hjoin ?_
  rintro ⟨s, d⟩ hprobe
  cases s with
  | pending => exact absurd rfl (hsettled _ hprobe)
  | continuing p => exact ⟨p, rfl⟩
  | terminal p r => cases hterminal _ hprobe

theorem parallel_covers {engine : Engine} (hmem : engines engine) {q : HistoryPosition}
    (hq : levels q) {group : Group} {join : Join} {nodes : List GraphNode}
    (hunique : (GraphNode.par group nodes join).UniqueNames)
    (hkeeps : (GraphNode.par group nodes join).keepsBranches = true)
    {context c : Context} {t : Traversal} (hbound : LeafBound engine t.cutoff q)
    (hnodes : ∀ n ∈ nodes, ∀ p d log, (engine.eval n context.clearWrites
      { t with mode := .probe }).Returns (.continuing p, d) log → Covers d log)
    {p : HistoryPosition} {log : List Effect}
    (h : (engine.evalParallel group join (nodes.map engine.child) context t).Returns
      (.continuing p, c) log) : Covers c log := by
  have hmode := (hfamily.config hmem hmem).native
  obtain ⟨probes, plog, hprobes, hrun⟩ := evalParallel_returns h
  have hlength : probes.length = nodes.length := by
    rw [forEach_length hprobes, List.length_map]
  simp only [GraphNode.keepsBranches, Bool.and_eq_true, Bool.not_eq_true'] at hkeeps
  obtain ⟨hjoins, hterminals⟩ := hkeeps
  obtain ⟨hjoin, hrequired⟩ : (∀ guard, join ≠ .first guard) ∧
      parallelJoinRequired join probes.length = probes.length := by
    rw [hlength]
    cases join with
    | first guard => cases hjoins
    | all => exact ⟨(fun _ h => by cases h), of_decide_eq_true hjoins⟩
    | any => exact ⟨(fun _ h => by cases h), of_decide_eq_true hjoins⟩
    | quorum n => exact ⟨(fun _ h => by cases h), of_decide_eq_true hjoins⟩
  cases hcase : hrun with
  | unreachable dlog hfew hsettled hlog =>
    rw [hrequired, completions_length hjoin hsettled
      (probes_not_terminal hmode hterminals hprobes)] at hfew
    exact absurd hfew (lt_irrefl _)
  | reached _ joined wlog first last hmany hposition hjoined hfirst hlast =>
    have hle : p ≤ q := hposition ▸ latest_winners_le (probes_within hfamily hmem hbound hprobes)
    have hcutoff : p ≤ t.cutoff :=
      hposition ▸ latest_winners_le (probes_within hfamily hmem (leafBound_cutoff _) hprobes)
    have hlevel : levels p := (hfamily.down.resolve_left id) hq hle
    obtain ⟨runs, hruns, hcontexts, -⟩ := joinParallelWinners_returns hjoined
    -- The context of every run is the one of its probe.
    have hagain : ∀ run ∈ runs, ∃ (k : Nat) (node : GraphNode) (p' : HistoryPosition)
        (inner : List Effect),
        nodes[k]? = some node ∧
        run.branch = engine.child node ∧ probes[k]? = some (Status.continuing p', run.context) ∧
        (engine.eval node context.clearWrites { t with mode := .probe }).Returns
          (.continuing p', run.context) inner := by
      intro run hrun
      obtain ⟨i, hi, rfl⟩ := List.getElem_of_mem hrun
      have hi' := hruns.length_eq ▸ hi
      obtain ⟨hbranch, hinner⟩ := (List.forall₂_iff_get.mp hruns).2 i hi' hi
      have hwinner := List.getElem_mem hi'
      rw [List.mem_map] at hwinner
      obtain ⟨⟨k, p'⟩, hwinner, hk⟩ := hwinner
      simp only [List.get_eq_getElem] at hbranch hinner
      rw [← hk, List.getElem?_map, Option.map_eq_some_iff] at hbranch
      obtain ⟨node, hnode, hchild⟩ := hbranch
      obtain ⟨d, hprobe, -⟩ := probe_of_mem_winners hwinner
      obtain ⟨branch, inner, hbranch, hprobed, -⟩ := forEach_get_result hprobes hprobe
      rw [List.getElem?_map, hnode] at hbranch
      cases hbranch
      rw [← hchild] at hinner
      have hp' : p' ≤ p := hposition ▸ le_latest (List.mem_map_of_mem hwinner)
      cases winner_again hfamily hmem hp' hcutoff hlevel hprobed hinner
      exact ⟨k, node, _, inner, hnode, hchild.symm, hprobe, hprobed⟩
    have hvisits : Covers joined plog := by
      intro v hv
      obtain ⟨k, branch, ⟨s, d⟩, inner, hbranch, hprobe, hinner, hv, -⟩ :=
        forEach_mem_log hprobes hv
      rw [List.getElem?_map, Option.map_eq_some_iff] at hbranch
      obtain ⟨node, hnode, rfl⟩ := hbranch
      have hk : k < probes.length := (List.getElem?_eq_some_iff.mp hprobe).1
      obtain ⟨p', hwinner⟩ := mem_winners_of_required hrequired hmany hk
      obtain ⟨d', hprobe', -⟩ := probe_of_mem_winners hwinner
      rw [hprobe] at hprobe'
      cases hprobe'
      have hnumber := hnodes node (List.mem_of_getElem? hnode) _ _ _ hinner v hv
      obtain ⟨hname, hindices, -⟩ := eval_effects hmode node hinner _ hv
      suffices joined.visits v.occurrence = d.visits v.occurrence by rwa [this]
      refine joinContexts_visits hcontexts ?_ (eval_counts hmode node hinner _) ?_
      · intro w hw hscope
        obtain ⟨run, hrun, rfl⟩ := List.mem_map.mp hw
        obtain ⟨k', node', p'', inner', hnode', hbranch', hprobe'', -⟩ := hagain run hrun
        rw [hbranch'] at hscope
        obtain rfl : k = k' := hunique.index_eq hnode hnode' hname hscope.1
        rw [hprobe] at hprobe''
        cases hprobe''
        rfl
      · right
        obtain ⟨i, hi⟩ := List.getElem?_of_mem (List.mem_map_of_mem (f := Prod.fst) hwinner)
        obtain ⟨hi', hik⟩ := List.getElem?_eq_some_iff.mp hi
        have hi'' := hruns.length_eq ▸ hi'
        obtain ⟨hbranch, -⟩ := (List.forall₂_iff_get.mp hruns).2 i hi' hi''
        simp only [List.get_eq_getElem] at hbranch
        rw [hik, List.getElem?_map, hnode] at hbranch
        have hchild : engine.child node = runs[i].branch := Option.some.inj hbranch
        refine ⟨_, List.mem_map_of_mem (List.getElem_mem hi''), ?_⟩
        rw [← hchild]
        exact ⟨hname, hindices⟩
    refine (hvisits.of_counts ?_).of_same ?_
    · refine SameCounts.counts fun occurrence => ?_
      rw [joinedContext, recordParallelControl_sameCounts]
      rfl
    · intro v hv
      obtain hfact | ⟨_, _, -, -, heffect⟩ := parallel_probed hfamily
        (fun n _ => eval_facts hfamily n) hmem hmem hq (.inl rfl) hbound (.refl t) hprobes rfl
        (evalParallel_fact rfl (h.log_eq ▸ hv))
      · exact exists_visit_of_mem_facts hfact
      · cases heffect

omit hfamily in
/-- The scopes of two items of a map visit have no occurrence in common. -/
theorem scope_index_eq {mapIndices indices : List Nat} {k k' : Nat}
    (h : mapIndices ++ [k] <+: indices) (h' : mapIndices ++ [k'] <+: indices) : k = k' := by
  obtain ⟨rest, rfl⟩ := h
  rw [List.append_assoc, List.prefix_append_right_inj] at h'
  obtain ⟨rest', hrest'⟩ := h'
  exact (List.cons.inj hrest').1.symm

theorem map_covers {engine : Engine} (hmem : engines engine) {q : HistoryPosition}
    (hq : levels q) {group : Group} {node : GraphNode} {overItems : DataSelector}
    {maxItems : PositiveInteger} {context c : Context} {t : Traversal}
    (hbound : LeafBound engine t.cutoff q)
    (hnode : ∀ item p d log, (engine.eval node context.clearWrites
      (itemTraversal { t with mode := .probe } item)).Returns (.continuing p, d) log →
        Covers d log)
    {p : HistoryPosition} {log : List Effect}
    (h : (engine.evalMap group overItems maxItems (engine.child node) context t).Returns
      (.continuing p, c) log) : Covers c log := by
  have hmode := (hfamily.config hmem hmem).native
  obtain ⟨selected, items, hselected, hitems, hmap⟩ := evalMap_returns h
  obtain ⟨-, -, -, hlog⟩ | ⟨-, probes, plog, hprobes, hrun⟩ := hmap
  · exact .of_decisions hlog
  cases hcase : hrun with
  | terminal index found item s dlog hfound hitem hdecide =>
    obtain ⟨r, hr, rfl, hterminal⟩ := found_mem hfound
    obtain ⟨item', inner, hitem', ⟨-, hprobe⟩, -⟩ := evaluateMapItems_get_result hprobes hr
    rw [hitem] at hitem'
    cases hitem'
    have hne : r.status ≠ .pending := Status.ne_pending hterminal
    have hle : r.status.position ≤ q := by
      refine eval_within hmode node ?_ hprobe hne
      exact hbound
    have hlevel : levels r.status.position := (hfamily.down.resolve_left id) hq hle
    have hstatus : .continuing p = r.status := terminal_status hfamily hmem hterminal hlevel hprobe
      (hdecide.imp (fun h => ⟨h.1, h.2.1⟩) fun ⟨hmode, d, hrun⟩ => ⟨hmode, d, _, hrun⟩)
    rw [← hstatus] at hterminal
    cases hterminal
  | finished results rlog dlog _ hnone hresults hsettled hclose hlog =>
    obtain ⟨merged, hmerged, rfl⟩ := closeMap_visits hclose
    -- Every item ends as it was probed.
    have hagain : ∀ (k : Nat) (r : MapItemResult), results[k]? = some r → probes[k]? = some r := by
      intro k r hr
      obtain ⟨-, rfl, -⟩ | ⟨hdecide, hresults⟩ := hresults
      · exact hr
      · obtain ⟨item, inner, hitem, ⟨hscope, hinner⟩, -⟩ := evaluateMapItems_get_result hresults hr
        obtain ⟨r', inner', hr', ⟨hscope', hinner'⟩, -⟩ := evaluateMapItems_get hprobes hitem
        have hsync : Sync .decide .probe t.cutoff t.cutoff (itemTraversal t (item, k))
            (itemTraversal { t with mode := .probe } (item, k)) :=
          ⟨rfl, rfl, hdecide, rfl, rfl, rfl⟩
        obtain ⟨hstatus, hcontext⟩ := eval_followed hfamily hmem hmem hq (.inl rfl) hbound hsync
          hinner hinner' (hsettled r (List.mem_of_getElem? hr))
        have heq : r' = r := by
          cases r
          cases r'
          cases hstatus
          cases hcontext
          cases hscope
          cases hscope'
          rfl
        rw [hr', heq]
    have hlength : results.length = probes.length := by
      obtain ⟨-, rfl, -⟩ | ⟨-, hresults⟩ := hresults
      · rfl
      · rw [evaluateMapItems_length hresults, evaluateMapItems_length hprobes]
    have hvisits : Covers (mergeItems node.names results merged) plog := by
      intro v hv
      obtain ⟨k, item, r, inner, hitem, hr, ⟨hscope, hinner⟩, hv, -⟩ :=
        evaluateMapItems_mem_log hprobes hv
      have hk : k < results.length := hlength ▸ (List.getElem?_eq_some_iff.mp hr).1
      have hresult : results[k]? = some r := by
        have hget := List.getElem?_eq_getElem hk
        rw [hagain k _ hget] at hr
        rw [hget, hr]
      obtain ⟨hname, hindices, -⟩ := eval_effects hmode node hinner _ hv
      obtain ⟨p', hp'⟩ : ∃ p', r.status = .continuing p' := by
        have hpending := hsettled r (List.mem_of_getElem? hresult)
        have hterminal := earliestTerminal_eq_none.mp hnone r (List.mem_of_getElem? hr)
        cases hs : r.status with
        | pending => exact absurd hs hpending
        | continuing p' => exact ⟨p', rfl⟩
        | terminal p' result =>
          rw [hs] at hterminal
          cases hterminal
      rw [hp'] at hinner
      have hnumber := hnode (item, k) _ _ _ hinner v hv
      suffices (mergeItems node.names results merged).visits v.occurrence =
          r.context.visits v.occurrence by rwa [this]
      refine mergeItems_visits ?_ ?_ (.inr ⟨r, List.mem_of_getElem? hresult, hname, ?_⟩)
      · intro r' hr' hscoped
        obtain ⟨k', hk'⟩ := List.getElem?_of_mem hr'
        have hprobe' := hagain k' r' hk'
        obtain ⟨_, _, -, ⟨hscope', -⟩, -⟩ := evaluateMapItems_get_result hprobes hprobe'
        have hindices' := hscoped.2
        rw [hscope'] at hindices'
        obtain rfl : k = k' := scope_index_eq hindices hindices'
        rw [hr] at hprobe'
        cases hprobe'
        rfl
      · rw [hmerged]
        exact eval_counts hmode node hinner _
      · rw [hscope]
        exact hindices
    refine hvisits.of_same fun v hv => ?_
    obtain ⟨selected', items', hselected', hitems', -, hsource⟩ :=
      evalMap_fact rfl (h.log_eq ▸ hv)
    rw [hselected] at hselected'
    cases hselected'
    rw [hitems] at hitems'
    cases hitems'
    obtain hfact | ⟨_, _, _, _, -, -, heffect⟩ := map_probed hfamily (eval_facts hfamily node) hmem
      hmem hq (.inl rfl) hbound (.refl t) hprobes rfl hsource
    · exact exists_visit_of_mem_facts hfact
    · cases heffect

/-- **The counters at the exit of a race-free node have seen every visit inside.** -/
theorem eval_counted (node : GraphNode) :
    ∀ {engine : Engine}, engines engine → ∀ {q : HistoryPosition}, levels q →
      node.UniqueNames → node.raceFree = true →
      ∀ {context c : Context} {t : Traversal} {p : HistoryPosition} {log : List Effect},
        LeafBound engine t.cutoff q →
        (engine.eval node context t).Returns (.continuing p, c) log → Covers c log := by
  induction node using GraphNode.induct with
  | step node =>
    intro engine hmem q hq hunique hfree context c t p log hbound h
    exact evalExecutable_covers (hfamily.config hmem hmem).native h
  | verifier node =>
    intro engine hmem q hq hunique hfree context c t p log hbound h
    exact evalExecutable_covers (hfamily.config hmem hmem).native h
  | seq group children ih =>
    intro engine hmem q hq hunique hfree context c t p log hbound h
    have hmode := (hfamily.config hmem hmem).native
    rw [eval_seq] at h
    obtain ⟨local', first, second, hchildren, hclose, rfl, hsecond⟩ := evalSequence_returns h
    have hfirst : Covers local' first := by
      refine runChildren_covers hmode ?_ hchildren
      intro n hn context p c log hrun
      have hchild : n ∈ (GraphNode.seq group children).children := hn
      exact ih n hn hmem hq (hunique.child hchild) (GraphNode.all_child hchild hfree) hbound hrun
    have hcounts : Counts context.clearWrites local' := by
      refine runChildren_counts ?_ hchildren
      intro child hchild context status c log hrun
      obtain ⟨n, -, rfl⟩ := List.mem_map.mp hchild
      exact eval_counts hmode n hrun
    refine (hfirst.of_counts ?_).append (.of_decisions hsecond)
    exact SameCounts.counts fun occurrence => promoted_visits hclose (hcounts occurrence)
  | choice group branches otherwise ihbranches ihotherwise =>
    intro engine hmem q hq hunique hfree context c t p log hbound h
    have hmode := (hfamily.config hmem hmem).native
    obtain ⟨node, local', first, second, hnode, hinner, hclose, rfl, hsecond⟩ :=
      eval_choice_returns engine h
    have hchild : node ∈ (GraphNode.choice group branches otherwise).children :=
      selectNode_child hnode
    have hfirst : Covers local' first := by
      rcases selectNode_mem hnode with ⟨b, hb, rfl⟩ | hother
      · exact ihbranches b hb hmem hq (hunique.child hchild) (GraphNode.all_child hchild hfree)
          hbound hinner
      · exact ihotherwise node hother hmem hq (hunique.child hchild)
          (GraphNode.all_child hchild hfree) hbound hinner
    have hcounts : Counts context.clearWrites local' := eval_counts hmode node hinner
    simp only [closeChoice, except_bind_eq_ok] at hclose
    obtain ⟨promoted, hpromoted, hr⟩ := hclose
    cases hr
    refine (hfirst.of_counts ?_).append (.of_decisions hsecond)
    exact SameCounts.counts fun occurrence =>
      visits_mergeRuntimeFacts (promoted_visits hpromoted (hcounts occurrence)).le
  | par group branches join ih =>
    intro engine hmem q hq hunique hfree context c t₀ p log hbound h
    rw [eval_par] at h
    refine parallel_covers hfamily hmem hq hunique (GraphNode.all_self hfree) ?_ ?_ h
    · exact hbound
    · intro n hn p d log hrun
      have hchild : n ∈ (GraphNode.par group branches join).children := hn
      refine ih n hn hmem hq (hunique.child hchild) (GraphNode.all_child hchild hfree) ?_ hrun
      exact hbound
  | loop group body untilGuard maxIterations maxIterationsInput ih =>
    intro engine hmem q hq hunique hfree context c t p log hbound h
    have hmode := (hfamily.config hmem hmem).native
    rw [eval_loop] at h
    obtain ⟨exit, first, second, hiterations, hclose, rfl, hsecond⟩ := evalLoop_returns h
    have hchild : body ∈ (GraphNode.loop group body untilGuard maxIterations
        maxIterationsInput).children := List.mem_singleton_self body
    cases exit with
    | stopped s =>
      cases hclose
      exact absurd rfl (runIterations_stops hiterations p)
    | completed local' position label =>
      have hfirst : Covers local' first := by
        refine runIterations_covers hmode ?_ hiterations
        intro iteration context p c log hrun
        refine ih hmem hq (hunique.child hchild) (GraphNode.all_child hchild hfree) ?_ hrun
        exact hbound
      have hcounts : Counts context local' :=
        runIterations_counts (fun _ _ _ _ _ hrun => eval_counts hmode body hrun) hiterations
      refine (hfirst.of_counts ?_).append (.of_decisions hsecond)
      exact (closeLoop_visits hclose hcounts).counts
  | map group body overItems maxItems ih =>
    intro engine hmem q hq hunique hfree context c t₀ p log hbound h
    rw [eval_map] at h
    have hchild : body ∈ (GraphNode.map group body overItems maxItems).children :=
      List.mem_singleton_self body
    refine map_covers hfamily hmem hq ?_ ?_ h
    · exact hbound
    · intro item p d log hrun
      refine ih hmem hq (hunique.child hchild) (GraphNode.all_child hchild hfree) ?_ hrun
      exact hbound
  | succeed node =>
    intro engine hmem q hq hunique hfree context c t p log hbound h
    obtain ⟨output, -, hstatus, -, -⟩ := evalSucceed_returns h
    cases hstatus
  | fail node =>
    intro engine hmem q hq hunique hfree context c t p log hbound h
    obtain ⟨hstatus, -, -⟩ := evalFail_returns h
    cases hstatus

end

end Engine

/-! ## Fresh numbers -/

/-- Visits of one occurrence with one number are visits of one loop iteration. -/
def Fresh (log : List Effect) : Prop :=
  ∀ v v', Effect.visit v ∈ log → Effect.visit v' ∈ log → v.occurrence = v'.occurrence →
    v.number = v'.number → v.loopIterations = v'.loopIterations

namespace Fresh

theorem nil : Fresh [] := fun _ _ hv => by cases hv

end Fresh

namespace Engine

theorem evalExecutable_fresh {engine : Engine} (hmode : engine.executionMode = .nativeV2)
    (spec : ExecutableSpec) (context : Context) (t : Traversal) :
    Fresh (engine.evalExecutable spec context t).log := by
  intro v v' hv hv' _ _
  obtain ⟨input, -, heffect⟩ := evalExecutable_fact hmode rfl hv
  obtain ⟨input', -, heffect'⟩ := evalExecutable_fact hmode rfl hv'
  cases heffect
  cases heffect'
  rfl

theorem runChildren_fresh {engine : Engine} (hmode : engine.executionMode = .nativeV2)
    {nodes : List GraphNode} (hunique : (nodes.flatMap GraphNode.names).Nodup) {t : Traversal}
    (hnodes : ∀ n ∈ nodes, ∀ context, Fresh (engine.eval n context t).log)
    {position : HistoryPosition} {context : Context} :
    Fresh (runChildren (nodes.map engine.eval) position context t).log := by
  induction nodes generalizing position context with
  | nil => exact .nil
  | cons node nodes ih =>
    rw [List.flatMap_cons, List.nodup_append] at hunique
    -- Different children have different names.
    have hnames : ∀ {v v' : Visit} {position : HistoryPosition} {c : Context},
        .visit v ∈ (engine.eval node context t).log →
        .visit v' ∈ (runChildren (nodes.map engine.eval) position c t).log →
        v.occurrence ≠ v'.occurrence := by
      intro v v' position c hv hv' hoccurrence
      have hname := (eval_visit_of hmode node hv).name
      obtain ⟨n, hn, d, -, hvisit⟩ :=
        runChildren_visit_of hmode (fun n _ _ hv => eval_visit_of hmode n hv) hv'
      refine hunique.2.2 _ hname _ (List.mem_flatMap.mpr ⟨n, hn, hvisit.name⟩) ?_
      rw [hoccurrence]
    intro v v' hv hv' hoccurrence hnumber
    rcases mem_runChildren_log hv with hv | ⟨p, c, hrun, hv⟩ <;>
      rcases mem_runChildren_log hv' with hv' | ⟨p', c', hrun', hv'⟩
    · exact hnodes node List.mem_cons_self context v v' hv hv' hoccurrence hnumber
    · exact absurd hoccurrence (hnames hv hv')
    · exact absurd hoccurrence.symm (hnames hv' hv)
    · obtain ⟨heq, -⟩ := hrun.unique hrun'
      cases heq
      exact ih hunique.2.1 (fun n hn => hnodes n (List.mem_cons_of_mem _ hn)) v v' hv hv'
        hoccurrence hnumber

theorem runIterations_fresh {engine : Engine} (hmode : engine.executionMode = .nativeV2)
    {names : List NodeName} {node : GraphNode} {untilGuard : Option Guard} {t : Traversal}
    (hbody : ∀ iteration context,
      Fresh (engine.eval node context (iterationTraversal t iteration)).log)
    {remaining : Nat}
    (hcovers : remaining ≤ 1 ∨ ∀ iteration context p c log,
      (engine.eval node context (iterationTraversal t iteration)).Returns (.continuing p, c) log →
        Covers c log)
    {iteration : Nat} {position : HistoryPosition} {context : Context} :
    Fresh (engine.runIterations names (engine.eval node) untilGuard t remaining iteration position
      context).log := by
  induction remaining generalizing iteration position context with
  | zero => exact .nil
  | succ remaining ih =>
    -- The counters the next iteration starts from have seen this one.
    have hnumbers : ∀ {v v' : Visit} {p : HistoryPosition} {c : Context} {log : List Effect},
        (engine.eval node (iterationContext names t context)
          (iterationTraversal t iteration)).Returns (.continuing p, c) log →
        .visit v ∈ log →
        .visit v' ∈ (engine.runIterations names (engine.eval node) untilGuard t remaining
          (iteration + 1) (max position p) c).log →
        v.occurrence = v'.occurrence → v.number ≠ v'.number := by
      intro v v' p c log hrun hv hv' hoccurrence hnumber
      rcases hcovers with hone | hcovers
      · obtain rfl : remaining = 0 := by omega
        cases hv'
      · have hle := hcovers _ _ _ _ _ hrun v hv
        obtain ⟨d, hcounts, hvisit⟩ := runIterations_visit_of hmode (fun iteration c hv =>
          @eval_visit_of _ hmode node c (iterationTraversal t iteration) _ hv) hv'
        have hlt := (hcounts v'.occurrence).trans_lt hvisit.above
        rw [hoccurrence, hnumber] at hle
        exact absurd hlt (not_lt.mpr hle)
    intro v v' hv hv' hoccurrence hnumber
    rcases mem_runIterations_log hv with hv | ⟨p, c, hrun, -, hv⟩ <;>
      rcases mem_runIterations_log hv' with hv' | ⟨p', c', hrun', -, hv'⟩
    · exact hbody _ _ v v' hv hv' hoccurrence hnumber
    · exact absurd hnumber (hnumbers hrun' hv hv' hoccurrence)
    · exact absurd hnumber.symm (hnumbers hrun hv' hv hoccurrence.symm)
    · obtain ⟨heq, -⟩ := hrun.unique hrun'
      cases heq
      refine ih ?_ v v' hv hv' hoccurrence hnumber
      exact hcovers.imp (fun hone => by omega) id

section

variable {levels : HistoryPosition → Prop} {engines : Engine → Prop}
  (hfamily : EngineFamily False levels engines) {engine : Engine} (hmem : engines engine)
include hfamily hmem

/-- A visit of a parallel group is made in the probe of a branch. -/
theorem parallel_visit_probed {q : HistoryPosition} (hq : levels q) {group : Group} {join : Join}
    {nodes : List GraphNode} {context : Context} {t : Traversal}
    (hbound : LeafBound engine t.cutoff q) {v : Visit}
    (hv : .visit v ∈ (engine.evalParallel group join (nodes.map engine.child) context t).log) :
    ∃ (k : Nat) (node : GraphNode) (v' : Visit), nodes[k]? = some node ∧
      .visit v' ∈ (engine.eval node context.clearWrites { t with mode := .probe }).log ∧
      v'.Same v := by
  have hsource := evalParallel_fact rfl hv
  have hprobed : ∀ {probes plog},
      (probeParallel (nodes.map engine.child) context t).Returns probes plog →
      ∃ (k : Nat) (node : GraphNode) (v' : Visit), nodes[k]? = some node ∧
        .visit v' ∈ (engine.eval node context.clearWrites { t with mode := .probe }).log ∧
        v'.Same v := by
    intro probes plog hprobes
    obtain hfact | ⟨_, _, -, -, heffect⟩ := parallel_probed hfamily
      (fun n _ => eval_facts hfamily n) hmem hmem hq (.inl rfl) hbound (.refl t) hprobes rfl
      hsource
    · obtain ⟨v', hv', hsame⟩ := exists_visit_of_mem_facts hfact
      rw [← Returns.log_eq hprobes] at hv'
      obtain ⟨branch, hbranch, hv'⟩ := mem_log_forEach hv'
      obtain ⟨node, hnode, rfl⟩ := List.mem_map.mp hbranch
      obtain ⟨k, hk⟩ := List.getElem?_of_mem hnode
      exact ⟨k, node, v', hk, hv', hsame⟩
    · cases heffect
  cases hsource with
  | probed k branch hk hv =>
    rw [List.getElem?_map, Option.map_eq_some_iff] at hk
    obtain ⟨node, hnode, rfl⟩ := hk
    exact ⟨k, node, v, hnode, hv, rfl, rfl, rfl⟩
  | decided _ _ _ _ _ hprobes | won _ _ _ _ _ hprobes => exact hprobed hprobes
  | joined _ _ _ _ heffect => cases heffect

/-- A visit of a map is made in the probe of an item. -/
theorem map_visit_probed {q : HistoryPosition} (hq : levels q) {group : Group} {node : GraphNode}
    {overItems : DataSelector} {maxItems : PositiveInteger} {context : Context} {t : Traversal}
    (hbound : LeafBound engine t.cutoff q) {v : Visit}
    (hv : .visit v ∈
      (engine.evalMap group overItems maxItems (engine.child node) context t).log) :
    ∃ selected items, selectData overItems context.state t.item = .ok selected ∧
      selected.asArray = some items ∧ ∃ k item v', items[k]? = some item ∧
      .visit v' ∈ (engine.eval node context.clearWrites
        (itemTraversal { t with mode := .probe } (item, k))).log ∧ v'.Same v := by
  obtain ⟨selected, items, hselected, hitems, -, hsource⟩ := evalMap_fact rfl hv
  refine ⟨selected, items, hselected, hitems, ?_⟩
  have hprobed : ∀ {probes plog}, (evaluateMapItems (engine.eval node) context
      { t with mode := .probe } items).Returns probes plog →
      ∃ k item v', items[k]? = some item ∧ .visit v' ∈ (engine.eval node context.clearWrites
        (itemTraversal { t with mode := .probe } (item, k))).log ∧ v'.Same v := by
    intro probes plog hprobes
    obtain hfact | ⟨_, _, _, _, -, -, heffect⟩ := map_probed hfamily (eval_facts hfamily node) hmem
      hmem hq (.inl rfl) hbound (.refl t) hprobes rfl hsource
    · obtain ⟨v', hv', hsame⟩ := exists_visit_of_mem_facts hfact
      obtain ⟨k, item, hk, hv'⟩ := mem_evaluateMapItems_log (hprobes.log_eq ▸ hv')
      exact ⟨k, item, v', hk, hv', hsame⟩
    · cases heffect
  cases hsource with
  | probed k item hk hv => exact ⟨k, item, v, hk, hv, rfl, rfl, rfl⟩
  | decided _ _ _ _ _ hprobes | terminal _ _ _ _ _ _ hprobes => exact hprobed hprobes
  | ended _ _ _ _ _ _ _ _ _ _ heffect => cases heffect

/-- **Visit freshness.** When no loop repeats a race, visits of one occurrence in different loop
iterations have different numbers. -/
theorem eval_fresh (node : GraphNode) {q : HistoryPosition} (hq : levels q) :
    node.UniqueNames → node.raceFreeLoops = true → ∀ {context : Context} {t : Traversal},
      LeafBound engine t.cutoff q → Fresh (engine.eval node context t).log := by
  have hmode := (hfamily.config hmem hmem).native
  induction node using GraphNode.induct with
  | step node => exact fun _ _ {context t} _ => evalExecutable_fresh hmode _ context t
  | verifier node => exact fun _ _ {context t} _ => evalExecutable_fresh hmode _ context t
  | seq group children ih =>
    intro hunique hfree context t hbound
    rw [eval_seq]
    intro v v' hv hv'
    refine runChildren_fresh hmode ?_ ?_ v v' (evalSequence_fact rfl hv)
      (evalSequence_fact rfl hv')
    · rw [GraphNode.UniqueNames, GraphNode.names_eq, List.nodup_cons] at hunique
      exact hunique.2
    · intro n hn context
      have hchild : n ∈ (GraphNode.seq group children).children := hn
      exact ih n hn (hunique.child hchild) (GraphNode.all_child hchild hfree) hbound
  | choice group branches otherwise ihbranches ihotherwise =>
    intro hunique hfree context t hbound v v' hv hv'
    obtain ⟨node, hnode, hv⟩ := evalChoice_fact rfl hv
    obtain ⟨node', hnode', hv'⟩ := evalChoice_fact rfl hv'
    rw [hnode] at hnode'
    cases hnode'
    have hchild : node ∈ (GraphNode.choice group branches otherwise).children :=
      selectNode_child hnode
    rcases selectNode_mem hnode with ⟨b, hb, rfl⟩ | hother
    · exact ihbranches b hb (hunique.child hchild) (GraphNode.all_child hchild hfree) hbound v v'
        hv hv'
    · exact ihotherwise node hother (hunique.child hchild) (GraphNode.all_child hchild hfree) hbound
        v v' hv hv'
  | par group branches join ih =>
    intro hunique hfree context t hbound
    rw [eval_par]
    intro v v' hv hv' hoccurrence
    have hbound' : LeafBound engine (enterGroup group.name t).cutoff q := hbound
    obtain ⟨k, n, w, hn, hw, hsame⟩ := parallel_visit_probed hfamily hmem hq hbound' hv
    obtain ⟨k', n', w', hn', hw', hsame'⟩ := parallel_visit_probed hfamily hmem hq hbound' hv'
    rw [← hsame.occurrence, ← hsame'.occurrence] at hoccurrence
    rw [← hsame.number, ← hsame'.number, ← hsame.loopIterations, ← hsame'.loopIterations]
    have hname := (eval_visit_of hmode n hw).name
    have hname' := (eval_visit_of hmode n' hw').name
    rw [← hoccurrence] at hname'
    obtain rfl : k = k' := hunique.index_eq hn hn' hname hname'
    rw [hn] at hn'
    cases hn'
    have hchild : n ∈ (GraphNode.par group branches join).children := List.mem_of_getElem? hn
    refine ih n hchild (hunique.child hchild) (GraphNode.all_child hchild hfree) ?_ w w' hw hw'
      hoccurrence
    exact hbound
  | loop group body untilGuard maxIterations maxIterationsInput ih =>
    intro hunique hfree context t hbound
    have hchild : body ∈ (GraphNode.loop group body untilGuard maxIterations
        maxIterationsInput).children := List.mem_singleton_self body
    rw [eval_loop]
    intro v v' hv hv'
    refine runIterations_fresh hmode ?_ ?_ v v' (evalLoop_fact rfl hv) (evalLoop_fact rfl hv')
    · intro iteration context
      exact ih (hunique.child hchild) (GraphNode.all_child hchild hfree) hbound
    · have hself := GraphNode.all_self hfree
      rw [Bool.or_eq_true, beq_iff_eq] at hself
      refine hself.imp (fun hone => hone.le) fun hbody => ?_
      intro iteration context p c log hrun
      refine eval_counted hfamily body hmem hq (hunique.child hchild) hbody ?_ hrun
      exact hbound
  | map group body overItems maxItems ih =>
    intro hunique hfree context t hbound
    have hchild : body ∈ (GraphNode.map group body overItems maxItems).children :=
      List.mem_singleton_self body
    rw [eval_map]
    intro v v' hv hv' hoccurrence
    have hbound' : LeafBound engine (enterGroup group.name t).cutoff q := hbound
    obtain ⟨selected, items, hselected, hitems, k, item, w, hk, hw, hsame⟩ :=
      map_visit_probed hfamily hmem hq hbound' hv
    obtain ⟨selected', items', hselected', hitems', k', item', w', hk', hw', hsame'⟩ :=
      map_visit_probed hfamily hmem hq hbound' hv'
    rw [hselected] at hselected'
    cases hselected'
    rw [hitems] at hitems'
    cases hitems'
    rw [← hsame.occurrence, ← hsame'.occurrence] at hoccurrence
    rw [← hsame.number, ← hsame'.number, ← hsame.loopIterations, ← hsame'.loopIterations]
    have hindices := (eval_visit_of hmode body hw).scope
    have hindices' := (eval_visit_of hmode body hw').scope
    rw [← hoccurrence] at hindices'
    obtain rfl : k = k' := scope_index_eq hindices hindices'
    rw [hk] at hk'
    cases hk'
    refine ih (hunique.child hchild) (GraphNode.all_child hchild hfree) ?_ w w' hw hw' hoccurrence
    exact hbound
  | succeed node =>
    intro hunique hfree context t hbound v v' hv
    exact (evalSucceed_fact hv).elim
  | fail node => exact fun _ _ {context t} _ => .nil

end

end Engine

end Zeroshot
