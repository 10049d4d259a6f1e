import Zeroshot.Reducer.Cutoffs
import Zeroshot.Run.Terminal

set_option autoImplicit false

/-!
# Cutoffs in a run

The reducer evaluates the winners of a race a second time, up to the position of the join, and a
map's terminal item up to the position of that item. `cutoff_stable` is why this is sound: a probe
that completes at a position completes alike under every cutoff from that position on.
-/

namespace Zeroshot

open Logged Engine

/-! ## The engine knows the groups of its graph -/

theorem mem_descendants_trans {root node sub : GraphNode} (hnode : node ∈ root.descendants)
    (hsub : sub ∈ node.descendants) : sub ∈ root.descendants := by
  induction root using GraphNode.induct_children with
  | step root ih =>
    rw [GraphNode.descendants_eq] at hnode
    rcases List.mem_cons.mp hnode with rfl | hnode
    · exact hsub
    · obtain ⟨child, hchild, hnode⟩ := List.mem_flatMap.mp hnode
      exact mem_descendants_of_child hchild (ih child hchild hnode)

theorem collectOptionalPromotions_kept {nodes : List GraphNode}
    {promotions result : OrdMap NodeName (OrdSet FieldPath)}
    (h : collectOptionalPromotions nodes promotions = .ok result) {name : NodeName}
    (hname : (OrdMap.get? promotions name).isSome = true) :
    (OrdMap.get? result name).isSome = true := by
  induction nodes generalizing promotions with
  | nil =>
    cases h
    exact hname
  | cons node nodes ih =>
    rw [collectOptionalPromotions] at h
    split at h
    · exact ih h hname
    · rename_i group _
      rw [except_bind_eq_ok] at h
      obtain ⟨optional, -, h⟩ := h
      refine ih h ?_
      by_cases heq : name = group.name
      · rw [heq, OrdMap.get?_insert_self]
        rfl
      · rw [OrdMap.get?_insert_ne heq]
        exact hname

theorem collectOptionalPromotions_mem {nodes : List GraphNode}
    {promotions result : OrdMap NodeName (OrdSet FieldPath)}
    (h : collectOptionalPromotions nodes promotions = .ok result) {node : GraphNode}
    (hnode : node ∈ nodes) {group : Group} (hgroup : node.group? = some group) :
    (OrdMap.get? result group.name).isSome = true := by
  induction nodes generalizing promotions with
  | nil => cases hnode
  | cons first nodes ih =>
    rw [collectOptionalPromotions] at h
    rcases List.mem_cons.mp hnode with rfl | hnode
    · rw [hgroup] at h
      dsimp only at h
      rw [except_bind_eq_ok] at h
      obtain ⟨optional, -, h⟩ := h
      refine collectOptionalPromotions_kept h ?_
      rw [OrdMap.get?_insert_self]
      rfl
    · split at h
      · exact ih h hnode
      · rw [except_bind_eq_ok] at h
        obtain ⟨optional, -, h⟩ := h
        exact ih h hnode

theorem knows_of_new {input : ReductionInput} {root node : GraphNode} {mode : ExecutionMode}
    {engine : Engine} (h : Engine.new input root mode = .ok engine)
    (hnode : node ∈ root.descendants) : engine.Knows node := by
  intro group branches join hpar
  obtain ⟨-, -, hpromotions, -⟩ := Engine.new_eq_ok h
  have hgroup : (GraphNode.par group branches join).group? = some group := rfl
  have hsome := collectOptionalPromotions_mem hpromotions (mem_descendants_trans hnode hpar) hgroup
  obtain ⟨optional, hoptional⟩ := Option.isSome_iff_exists.mp hsome
  refine ⟨optional, ?_⟩
  rw [optionalPathsOf, hoptional]

/-! ## Probes and second evaluations -/

section

variable {engine : Engine} (hfamily : EngineFamily False (fun _ => True) fun x => x = engine)
include hfamily

theorem eval_again {node : GraphNode} (hknows : engine.Knows node) {mode : EvalMode}
    {c c' : HistoryPosition} (hle : c' ≤ c) {context : Context} {t t' : Traversal}
    (hsync : Sync .probe mode c c' t t') {r : Status × Context} {log : List Effect}
    (h : (engine.eval node context t).Returns r log) (hknown : ¬ Late c' r.1) :
    (engine.eval node context t').result = .ok r ∨
      mode = .decide ∧ (engine.eval node context t').result = .error .missingSelectedValue := by
  have hfollows := eval_follows hfamily node hknows hle _ _ _ hsync _ _ h (.inr hknown)
  obtain ⟨r', log', hrun⟩ | ⟨e, herror, hdecide, rfl⟩ := hfollows.returns_or
  · left
    obtain ⟨-, rfl⟩ | ⟨hlate, -⟩ := eval_same_or_pending hfamily node hle hsync h hrun
    · rw [hrun]
    · exact absurd hlate hknown
  · exact .inr ⟨hdecide, herror⟩

/-- **A probe that completes at a position completes alike under every cutoff from there on.** -/
theorem probe_truncated {node : GraphNode} (hknows : engine.Knows node) {context d : Context}
    {t : Traversal} (hmode : t.mode = .probe) {status : Status}
    (h : (engine.eval node context t).result = .ok (status, d)) (hne : status ≠ .pending) :
    status.position ≤ t.cutoff ∧ ∀ c', status.position ≤ c' → c' ≤ t.cutoff →
      (engine.eval node context { t with cutoff := c' }).result = .ok (status, d) := by
  have hrun :
      (engine.eval node context t).Returns (status, d) (engine.eval node context t).log := by
    rw [Returns, ← h]
  have hwithin : Within t.cutoff status :=
    eval_within (hfamily.config rfl rfl).native node (leafBound_cutoff t.cutoff) hrun
  refine ⟨hwithin hne, fun c' hposition hle => ?_⟩
  have hsync : Sync .probe .probe t.cutoff c' t { t with cutoff := c' } :=
    ⟨rfl, rfl, hmode, hmode, rfl, rfl⟩
  have hknown : ¬ Late c' status := by
    rintro (hpending | hlt)
    · exact hne hpending
    · exact absurd hposition (not_le.mpr hlt)
  obtain hsame | ⟨hfalse, -⟩ := eval_again hfamily hknows hle hsync hrun hknown
  · exact hsame
  · cases hfalse

theorem winner_again {join : Join} {branches : List GraphNode}
    (hknows : ∀ branch ∈ branches, engine.Knows branch) {context : Context} {t : Traversal}
    {probes : List (Status × Context)}
    (h : (probeParallel (branches.map engine.child) context t).result = .ok probes) {index : Nat}
    {p : HistoryPosition} (hwinner : (index, p) ∈ engine.winnersOf join t.mapIndices probes) :
    ∃ branch d, branches[index]? = some branch ∧ probes[index]? = some (.continuing p, d) ∧
      ((engine.eval branch context.clearWrites
          { t with
            cutoff := latest ((engine.winnersOf join t.mapIndices probes).map Prod.snd) }).result =
          .ok (.continuing p, d) ∨
        t.mode = .decide ∧ (engine.eval branch context.clearWrites
          { t with
            cutoff := latest ((engine.winnersOf join t.mapIndices probes).map Prod.snd) }).result =
          .error .missingSelectedValue) := by
  have hrun : (probeParallel (branches.map engine.child) context t).Returns probes
      (probeParallel (branches.map engine.child) context t).log := by
    rw [Returns, ← h]
  have hnative := (hfamily.config (rfl : engine = engine) rfl).native
  obtain ⟨d, hprobe, -⟩ := probe_of_mem_winners hwinner
  obtain ⟨branch, inner, hbranch, hinner, -⟩ := forEach_get_result hrun hprobe
  rw [List.getElem?_map, Option.map_eq_some_iff] at hbranch
  obtain ⟨node, hnode, rfl⟩ := hbranch
  refine ⟨node, d, hnode, hprobe, ?_⟩
  have hposition :
      latest ((engine.winnersOf join t.mapIndices probes).map Prod.snd) ≤ t.cutoff := by
    refine latest_winners_le fun probe hmem => ?_
    obtain ⟨k, hk⟩ := List.getElem?_of_mem hmem
    obtain ⟨other, _, hother, hrunOther, -⟩ := forEach_get_result hrun hk
    obtain ⟨n, -, rfl⟩ := List.mem_map.mp (List.mem_of_getElem? hother)
    refine eval_within hnative n ?_ hrunOther
    exact leafBound_cutoff t.cutoff
  have hle : p ≤ latest ((engine.winnersOf join t.mapIndices probes).map Prod.snd) :=
    le_latest (List.mem_map_of_mem hwinner)
  have hsync : Sync .probe t.mode t.cutoff
      (latest ((engine.winnersOf join t.mapIndices probes).map Prod.snd))
      { t with mode := .probe }
      { t with cutoff := latest ((engine.winnersOf join t.mapIndices probes).map Prod.snd) } :=
    ⟨rfl, rfl, rfl, rfl, rfl, rfl⟩
  refine eval_again hfamily (hknows node (List.mem_of_getElem? hnode)) hposition hsync hinner ?_
  exact late_continuing.not.mpr (not_lt.mpr hle)

theorem item_again {body : GraphNode} (hknows : engine.Knows body) {context : Context}
    {t : Traversal} {items : List Value} {probes : List MapItemResult}
    (h : (evaluateMapItems (engine.eval body) context { t with mode := .probe } items).result =
      .ok probes) {index : Nat} {found : Status}
    (hfound : earliestTerminal 0 probes = some (index, found)) :
    ∃ item probe, items[index]? = some item ∧ probes[index]? = some probe ∧ probe.status = found ∧
      ((∃ d, (engine.eval body context (terminalTraversal t (item, index) found.position)).result =
          .ok (found, d) ∧ d.Alike probe.context) ∨
        t.mode = .decide ∧
          (engine.eval body context (terminalTraversal t (item, index) found.position)).result =
            .error .missingSelectedValue) := by
  have hrun : (evaluateMapItems (engine.eval body) context { t with mode := .probe }
      items).Returns probes
      (evaluateMapItems (engine.eval body) context { t with mode := .probe } items).log := by
    rw [Returns, ← h]
  obtain ⟨probe, hprobe, rfl, hterminal⟩ := found_mem hfound
  obtain ⟨item, inner, hitem, ⟨-, hinner⟩, -⟩ := evaluateMapItems_get_result hrun hprobe
  refine ⟨item, probe, hitem, hprobe, rfl, ?_⟩
  have hne : probe.status ≠ .pending := Status.ne_pending hterminal
  have hposition : probe.status.position ≤ t.cutoff := by
    refine eval_within (hfamily.config rfl rfl).native body ?_ hinner hne
    exact leafBound_cutoff t.cutoff
  have hknown : ¬ Late probe.status.position probe.status := by
    rintro (hpending | hlt)
    · exact hne hpending
    · exact lt_irrefl _ hlt
  have hscope : Sync .probe t.mode t.cutoff probe.status.position
      (itemTraversal { t with mode := .probe } (item, index))
      (terminalTraversal t (item, index) probe.status.position) :=
    ⟨rfl, rfl, rfl, rfl, rfl, rfl⟩
  have halike := @eval_clearWrites engine body context
    (terminalTraversal t (item, index) probe.status.position)
  obtain hsame | ⟨hdecide, herror⟩ := eval_again hfamily hknows hposition hscope hinner hknown
  · left
    obtain ⟨⟨status, d⟩, hagain, hstatus, hcontext⟩ := halike.symm.returns
      (show Returns _ _ (engine.eval body context.clearWrites
        (terminalTraversal t (item, index) probe.status.position)).log by rw [Returns, ← hsame])
    obtain rfl : status = probe.status := hstatus
    exact ⟨d, by rw [hagain], hcontext⟩
  · right
    refine ⟨hdecide, ?_⟩
    have hfails : (engine.eval body context.clearWrites (terminalTraversal t (item, index)
        probe.status.position)).FailsOnly (fun e => e = .missingSelectedValue) := by
      intro e he
      rw [herror] at he
      cases he
      rfl
    obtain ⟨r, log, hreturns⟩ | ⟨e, he, rfl⟩ := (halike.failsOnly hfails).returns_or
    · obtain ⟨r', hreturns', -⟩ := halike.returns hreturns
      rw [hreturns'] at herror
      cases herror
    · exact he

end

/-- **Cutoffs are stable.** In every reachable history without an event at the last position, for
every node of the graph and every entry context and traversal: a probe that completes at `p` has
`p` up to its cutoff, and completes with the same status and context under every cutoff from `p` to
its own. So the second evaluation of each winner of a race returns the probed result, and that of a
map's terminal item the probed status; in a decision it may instead fail because a value it reports
as promoted is missing from the state. -/
theorem cutoff_stable {gate : DispatchGate} {root : GraphNode} {initialInput : Value}
    {executions : List DurableExecution} (hreach : Reachable gate root initialInput executions)
    (hbelow : BelowMax executions) {engine : Engine}
    (hengine : Engine.new (runInput initialInput executions) root .nativeV2 = .ok engine)
    {node : GraphNode} (hnode : node ∈ root.descendants) (context : Context) (t : Traversal) :
    (∀ status d, t.mode = .probe → (engine.eval node context t).result = .ok (status, d) →
      status ≠ .pending → status.position ≤ t.cutoff ∧
        ∀ c', status.position ≤ c' → c' ≤ t.cutoff →
          (engine.eval node context { t with cutoff := c' }).result = .ok (status, d)) ∧
    (∀ group branches join probes index p, node = .par group branches join →
      (probeParallel (branches.map engine.child) context t).result = .ok probes →
      (index, p) ∈ engine.winnersOf join t.mapIndices probes →
      ∃ branch d, branches[index]? = some branch ∧ probes[index]? = some (.continuing p, d) ∧
        ((engine.eval branch context.clearWrites
            { t with
              cutoff := latest ((engine.winnersOf join t.mapIndices probes).map
                Prod.snd) }).result = .ok (.continuing p, d) ∨
          t.mode = .decide ∧ (engine.eval branch context.clearWrites
            { t with
              cutoff := latest ((engine.winnersOf join t.mapIndices probes).map
                Prod.snd) }).result = .error .missingSelectedValue)) ∧
    (∀ group body overItems maxItems items probes index found,
      node = .map group body overItems maxItems →
      (evaluateMapItems (engine.eval body) context { t with mode := .probe } items).result =
        .ok probes →
      earliestTerminal 0 probes = some (index, found) →
      ∃ item probe, items[index]? = some item ∧ probes[index]? = some probe ∧
        probe.status = found ∧
        ((∃ d, (engine.eval body context
            (terminalTraversal t (item, index) found.position)).result = .ok (found, d) ∧
              d.Alike probe.context) ∨
          t.mode = .decide ∧ (engine.eval body context
            (terminalTraversal t (item, index) found.position)).result =
              .error .missingSelectedValue)) := by
  obtain ⟨hexecutions, -, -, hnative, -, -⟩ := Engine.new_eq_ok hengine
  have hfamily : EngineFamily False (fun _ => True) fun x => x = engine := by
    refine selfFamily hnative ?_ ?_
    · rw [hexecutions]
      exact hreach.timely.ordered
    · rw [hexecutions]
      exact hbelow
  have hknows : engine.Knows node := knows_of_new hengine hnode
  have hchild : ∀ child ∈ node.children, engine.Knows child := fun child hmem =>
    knows_of_new hengine (mem_descendants_trans hnode (mem_descendants_of_child hmem (by
      rw [GraphNode.descendants_eq]
      exact List.mem_cons_self)))
  refine ⟨fun status d hmode h hne => probe_truncated hfamily hknows hmode h hne, ?_, ?_⟩
  · rintro group branches join probes index p rfl h hwinner
    exact winner_again hfamily hchild h hwinner
  · rintro group body overItems maxItems items probes index found rfl h hfound
    exact item_again hfamily (hchild body List.mem_cons_self) h hfound

namespace Sample

/-- Everything that happened, probed from the root. -/
def probeTraversal : Traversal := { rootTraversal with mode := .probe }

/-- The group that is raced in `race`. -/
def raceGroup : GraphNode := .par (group p) [step a, step b] .any

/-- Both steps start, then the first one settles. -/
def raceEvents : List RunEvent :=
  [.dispatch [(execution 0, position 1), (execution 1, position 2)],
    .settle (execution 0) (position 3) done]

/-- The engine of a history, and an empty one when there is none. -/
def engineOf (root : GraphNode) (initialInput : Value) (executions : List DurableExecution) :
    Engine :=
  match Engine.new (runInput initialInput executions) root .nativeV2 with
  | .ok engine => engine
  | .error _ => ⟨[], [], [], .nativeV2⟩

/-- A race that ends by a time-out of `d`, and fails then. -/
def timeoutRace : GraphNode :=
  .par (group p) [step d, step e] (.first (.inLabels ⟨d, .error, none⟩ timedOut))

def timeoutGraph : GraphSpec where
  profile := .full
  initialInput := .null
  policy := policy
  root := .seq (group s) [timeoutRace, fail f]
  wellFormed := by decide +kernel

/-- `e` settles, then `d` at the last position, without a time-out. -/
def timeoutHistory : List DurableExecution :=
  [attempt 0 d [] 1 (.settled HistoryPosition.max done),
    attempt 1 e [] 2 (.settled (position 5) done)]

def timeoutEvents : List RunEvent :=
  [.dispatch [(execution 0, position 1), (execution 1, position 2)],
    .settle (execution 1) (position 5) done, .settle (execution 0) HistoryPosition.max done]

/-- A group whose only branch promotes `x`, which the state requires. -/
def promotingGroup : GraphNode := .par ⟨o, itemType, [x]⟩ [step a] .all

def promotingGraph : GraphSpec where
  profile := .full
  initialInput := itemType
  policy := policy
  root := .seq ⟨s, itemType, []⟩ [.par ⟨p, itemType, []⟩ [promotingGroup] .all, fail f]
  wellFormed := by decide +kernel

def promotingHistory : List DurableExecution :=
  [attempt 0 a [] 1 (.settled (position 2) done)]

def promotingEvents : List RunEvent :=
  [.dispatch [(execution 0, position 1)], .settle (execution 0) (position 2) done]

end Sample

open Sample in
/-- The race is won at the third position, and known from there on. -/
theorem race_cutoff :
    Reachable .voidsFirst race.root .null (raceHistory .active) ∧
      raceGroup ∈ race.root.descendants ∧
      ∃ d, ((engineOf race.root .null (raceHistory .active)).eval raceGroup (Context.new .null)
          probeTraversal).result = .ok (.continuing (position 3), d) ∧
        ((engineOf race.root .null (raceHistory .active)).eval raceGroup (Context.new .null)
          { probeTraversal with cutoff := position 3 }).result =
            .ok (.continuing (position 3), d) := by
  have hreach : Reachable .voidsFirst race.root .null (raceHistory .active) :=
    ⟨raceEvents, by decide +kernel⟩
  have hnode : raceGroup ∈ race.root.descendants := .tail _ (.head _)
  have hbelow : BelowMax (raceHistory .active) := by decide +kernel
  have hengine : Engine.new (runInput .null (raceHistory .active)) race.root .nativeV2 =
      .ok (engineOf race.root .null (raceHistory .active)) := rfl
  have hstatus : ((engineOf race.root .null (raceHistory .active)).eval raceGroup
      (Context.new .null) probeTraversal).result.map Prod.fst =
        .ok (.continuing (position 3)) := by decide +kernel
  refine ⟨hreach, hnode, ?_⟩
  cases hresult : ((engineOf race.root .null (raceHistory .active)).eval raceGroup
      (Context.new .null) probeTraversal).result with
  | error e =>
    rw [hresult] at hstatus
    cases hstatus
  | ok r =>
    obtain ⟨status, d⟩ := r
    rw [hresult] at hstatus
    cases hstatus
    have hstable := (cutoff_stable hreach hbelow hengine hnode (Context.new .null)
      probeTraversal).1 _ d rfl hresult (by decide)
    exact ⟨d, rfl, hstable.2 (position 3) le_rfl hstable.1⟩

open Sample in
/-- With an event at the last position a probe completes at the fifth position, but not when it is
cut off there. And a decision from an entry context that lacks `x` probes the branch that promotes
it as a winner, but fails when it evaluates it again. -/
theorem cutoff_counterexample :
    (Verified registry timeoutGraph ∧
      Reachable .voidsFirst timeoutGraph.root .null timeoutHistory ∧
      timeoutRace ∈ timeoutGraph.root.descendants ∧
      Engine.new (runInput .null timeoutHistory) timeoutGraph.root .nativeV2 =
        .ok (engineOf timeoutGraph.root .null timeoutHistory) ∧
      ((engineOf timeoutGraph.root .null timeoutHistory).eval timeoutRace (Context.new .null)
        probeTraversal).result.map Prod.fst = .ok (.continuing (position 5)) ∧
      ((engineOf timeoutGraph.root .null timeoutHistory).eval timeoutRace (Context.new .null)
        { probeTraversal with cutoff := position 5 }).result.map Prod.fst = .ok .pending) ∧
    (Verified registry promotingGraph ∧
      Reachable .voidsFirst promotingGraph.root (.object [("x", .string "v")]) promotingHistory ∧
      Engine.new (runInput (.object [("x", .string "v")]) promotingHistory) promotingGraph.root
        .nativeV2 = .ok (engineOf promotingGraph.root (.object [("x", .string "v")])
          promotingHistory) ∧
      (probeParallel ([promotingGroup].map (engineOf promotingGraph.root
        (.object [("x", .string "v")]) promotingHistory).child) (Context.new (.object []))
        rootTraversal).result.map (fun probes => probes.map Prod.fst) =
          .ok [.continuing (position 2)] ∧
      ((engineOf promotingGraph.root (.object [("x", .string "v")]) promotingHistory).eval
        promotingGroup (Context.new (.object [])).clearWrites
        { rootTraversal with cutoff := position 2 }).result.map Prod.fst =
          .error .missingSelectedValue) := by
  have hnode : timeoutRace ∈ timeoutGraph.root.descendants := .tail _ (.head _)
  refine ⟨⟨?_, ⟨timeoutEvents, ?_⟩, hnode, rfl, ?_, ?_⟩, ?_, ⟨promotingEvents, ?_⟩, rfl, ?_, ?_⟩ <;>
    decide +kernel

end Zeroshot
