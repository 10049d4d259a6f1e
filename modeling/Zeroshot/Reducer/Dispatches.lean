import Zeroshot.Reducer.Requests

set_option autoImplicit false

/-!
# Where dispatches come from

* `eval_distinct`: the dispatches of one evaluation are of distinct occurrences, since children have
  distinct names and the items of a map distinct indices.
* `eval_sources`: each dispatch comes from a visit of an executable whose earlier visits were
  evaluated to their end. What was evaluated to its end is recorded in the context by the visit
  counters (`Marks`).
-/

namespace Zeroshot

open Logged

/-- The executable data of a leaf. -/
def GraphNode.spec? : GraphNode → Option Engine.ExecutableSpec
  | .step node => some (Engine.stepSpec node)
  | .verifier node => some (Engine.verifierSpec node)
  | .seq _ _ | .choice _ _ _ | .par _ _ _ | .loop _ _ _ _ _ | .map _ _ _ _ | .succeed _
  | .fail _ => none

/-! ## Requests -/

/-- The dispatches a log asks for, in order. -/
def requests (log : List Effect) : List DispatchRequest :=
  log.filterMap fun
    | .dispatch r => some r
    | .visit _ | .void _ | .joined _ | .itemTerminated _ | .decision _ => none

theorem mem_requests {log : List Effect} {r : DispatchRequest} :
    r ∈ requests log ↔ .dispatch r ∈ log := by
  rw [requests, List.mem_filterMap]
  constructor
  · rintro ⟨effect, heffect, hr⟩
    cases effect <;> cases hr
    exact heffect
  · exact fun h => ⟨_, h, rfl⟩

theorem requests_append (first second : List Effect) :
    requests (first ++ second) = requests first ++ requests second := List.filterMap_append

theorem requests_of_noDispatch {log : List Effect} (h : NoDispatch log) : requests log = [] := by
  rw [List.eq_nil_iff_forall_not_mem]
  exact fun r hr => h r (mem_requests.mp hr)

theorem requests_flatten (logs : List (List Effect)) :
    requests logs.flatten = (logs.map requests).flatten := by
  induction logs with
  | nil => rfl
  | cons log logs ih =>
    rw [List.flatten_cons, requests_append, ih, List.map_cons, List.flatten_cons]

/-- No occurrence is dispatched twice. -/
def Distinct (log : List Effect) : Prop :=
  (requests log).Pairwise fun a b => a.occurrence ≠ b.occurrence

theorem Distinct.of_noDispatch {log : List Effect} (h : NoDispatch log) : Distinct log := by
  rw [Distinct, requests_of_noDispatch h]
  exact .nil

theorem Distinct.append_left {first second : List Effect} (h : Distinct first)
    (hsecond : NoDispatch second) : Distinct (first ++ second) := by
  rw [Distinct, requests_append, requests_of_noDispatch hsecond, List.append_nil]
  exact h

theorem Distinct.append_right {first second : List Effect} (hfirst : NoDispatch first)
    (h : Distinct second) : Distinct (first ++ second) := by
  rw [Distinct, requests_append, requests_of_noDispatch hfirst, List.nil_append]
  exact h

/-- Runs on several elements, the dispatches of which differ. -/
theorem forEach_distinct {α β : Type} {f : α → Walk β} {as : List α} {bs : List β}
    {log : List Effect} (h : (forEach f as).Returns bs log)
    (hinner : ∀ a ∈ as, ∀ b inner, (f a).Returns b inner → Distinct inner)
    (hacross : ∀ (i j : Nat) (a a' : α), i < j → as[i]? = some a → as[j]? = some a' →
      ∀ b inner b' inner', (f a).Returns b inner → (f a').Returns b' inner' →
        ∀ r r', .dispatch r ∈ inner → .dispatch r' ∈ inner' → r.occurrence ≠ r'.occurrence) :
    Distinct log := by
  obtain ⟨runs, hruns, -, rfl⟩ := returns_forEach.mp h
  rw [Distinct, requests_flatten, List.pairwise_flatten]
  obtain ⟨hlength, hget⟩ := List.forall₂_iff_get.mp hruns
  constructor
  · intro inner hin
    rw [List.map_map, List.mem_map] at hin
    obtain ⟨run, hrun, rfl⟩ := hin
    obtain ⟨k, hk, rfl⟩ := List.getElem_of_mem hrun
    have hk' : k < as.length := hlength ▸ hk
    exact hinner _ (List.get_mem as ⟨k, hk'⟩) _ _ (hget k hk' hk)
  · rw [List.map_map, List.pairwise_map, List.pairwise_iff_getElem]
    intro i j hi hj hij r hr r' hr'
    have hi' : i < as.length := hlength ▸ hi
    have hj' : j < as.length := hlength ▸ hj
    exact hacross i j _ _ hij (List.getElem?_eq_getElem hi') (List.getElem?_eq_getElem hj') _ _ _ _
      (hget i hi' hi) (hget j hj' hj) r r' (mem_requests.mp hr) (mem_requests.mp hr')

namespace Engine

variable {engine : Engine}

theorem evalExecutable_distinct (hmode : engine.executionMode = .nativeV2) {spec : ExecutableSpec}
    {context c : Context} {t : Traversal} {status : Status} {log : List Effect}
    (h : (engine.evalExecutable spec context t).Returns (status, c) log) : Distinct log := by
  obtain ⟨number, input, rest, -, -, -, rfl, -, hleaf⟩ := evalExecutable_returns hmode h
  cases hleaf with
  | waiting => exact .nil
  | missing => exact List.pairwise_singleton _ _
  | retry => exact List.pairwise_singleton _ _
  | done position _ hlog =>
    rw [← List.singleton_append]
    refine .of_noDispatch (NoDispatch.append (fun r hr => ?_) hlog.noDispatch)
    cases List.mem_singleton.mp hr

theorem runChildren_distinct {nodes : List GraphNode} (hmode : engine.executionMode = .nativeV2)
    {t : Traversal}
    (hnodes : ∀ node ∈ nodes, ∀ context status c log,
      (engine.eval node context t).Returns (status, c) log → Distinct log)
    {position : HistoryPosition} {context c : Context} {status : Status} {log : List Effect}
    (h : (runChildren (nodes.map engine.eval) position context t).Returns (status, c) log) :
    Distinct log := by
  induction nodes generalizing position context log with
  | nil =>
    obtain ⟨-, -, rfl⟩ := runChildren_nil h
    exact .nil
  | cons node nodes ih =>
    rw [List.forall_mem_cons] at hnodes
    rcases runChildren_cons h with ⟨p, c', first, second, hfirst, hrest, rfl⟩ | ⟨s, hfirst, -, -⟩
    · have hnone : NoDispatch first := (eval_dispatch hmode node hfirst).noDispatch (by simp)
      exact .append_right hnone (ih hnodes.2 hrest)
    · exact hnodes.1 _ _ _ _ hfirst

theorem runIterations_distinct {body : GraphNode} (hmode : engine.executionMode = .nativeV2)
    (hbody : ∀ {context c t status log}, (engine.eval body context t).Returns (status, c) log →
      Distinct log) {names : List NodeName} {untilGuard : Option Guard} {t : Traversal}
    {remaining iteration : Nat} {position : HistoryPosition} {context : Context} {exit : LoopExit}
    {log : List Effect}
    (h : (engine.runIterations names (engine.eval body) untilGuard t remaining iteration position
      context).Returns exit log) : Distinct log := by
  induction remaining generalizing iteration position context log with
  | zero =>
    obtain ⟨-, rfl⟩ := returns_pure.mp h
    exact .nil
  | succ remaining ih =>
    rcases runIterations_succ h with ⟨p, c, first, second, hfirst, rfl, hcase⟩ |
      ⟨s, c, hfirst, -, -⟩
    · have hnone : NoDispatch first := (eval_dispatch hmode body hfirst).noDispatch (by simp)
      rcases hcase with ⟨-, -, rfl⟩ | ⟨-, hrest⟩
      · exact .append_right hnone .nil
      · exact .append_right hnone (ih hrest)
    · exact hbody hfirst

/-- The dispatches of two items of one map. -/
theorem items_apart (hmode : engine.executionMode = .nativeV2) {body : GraphNode}
    {context : Context} {t : Traversal} {i j : Nat} (hne : i ≠ j) {item item' : Value}
    {result result' : MapItemResult} {inner inner' : List Effect}
    (h : ItemRun (engine.eval body) context t (item, i) result inner)
    (h' : ItemRun (engine.eval body) context t (item', j) result' inner') {r r' : DispatchRequest}
    (hr : .dispatch r ∈ inner) (hr' : .dispatch r' ∈ inner') : r.occurrence ≠ r'.occurrence := by
  intro heq
  have hinitial : t.mapIndices ++ [i] <+: r.occurrence.mapIndices :=
    (eval_effects hmode body h.2 _ hr).2.1
  have hinner : t.mapIndices ++ [j] <+: r'.occurrence.mapIndices :=
    (eval_effects hmode body h'.2 _ hr').2.1
  rw [heq] at hinitial
  have hsame := List.prefix_of_prefix_length_le hinitial hinner (by simp)
  have heq' := hsame.eq_of_length (by simp)
  simp only [List.append_cancel_left_eq, List.cons.injEq, and_true] at heq'
  exact hne heq'

/-- **Distinct dispatches.** -/
theorem eval_distinct (hmode : engine.executionMode = .nativeV2) (node : GraphNode) :
    node.UniqueNames → ∀ {context c : Context} {t : Traversal} {status : Status}
      {log : List Effect}, (engine.eval node context t).Returns (status, c) log → Distinct log := by
  induction node using GraphNode.induct with
  | step node => exact fun _ _ _ _ _ _ h => evalExecutable_distinct hmode h
  | verifier node => exact fun _ _ _ _ _ _ h => evalExecutable_distinct hmode h
  | seq group children ih =>
    intro hunique context c t status log h
    rw [eval_seq] at h
    obtain ⟨local', first, second, hrun, -, rfl, hsecond⟩ := evalSequence_returns h
    refine .append_left (runChildren_distinct hmode ?_ hrun) hsecond.noDispatch
    intro node hnode context status c log hnodeRun
    exact ih node hnode (hunique.child hnode) hnodeRun
  | choice group branches otherwise ihbranches ihotherwise =>
    intro hunique context c t status log h
    obtain ⟨node, local', first, second, hnode, hrun, -, rfl, hsecond⟩ :=
      eval_choice_returns engine h
    have hchild : node.UniqueNames := hunique.child (selectNode_child hnode)
    refine .append_left ?_ hsecond.noDispatch
    rcases selectNode_mem hnode with ⟨branch, hbranch, rfl⟩ | hother
    · exact ihbranches branch hbranch hchild hrun
    · exact ihotherwise node hother hchild hrun
  | par group branches join ih =>
    intro hunique context c t status log h
    have hall := eval_dispatch hmode _ h
    rw [eval_par] at h
    obtain ⟨probes, plog, hprobes, hrun⟩ := evalParallel_returns h
    cases hrun with
    | unreachable => exact .of_noDispatch (hall.noDispatch (by simp))
    | reached => exact .of_noDispatch (hall.noDispatch (by simp))
    | opened dlog _ _ hdecide =>
      have hplog : NoDispatch plog := by
        refine forEach_noDispatch hprobes fun branch probe inner hbranch _ hinner => ?_
        obtain ⟨node, hnode, rfl⟩ := List.mem_map.mp hbranch
        exact (eval_dispatch hmode node hinner).noDispatch_of_mode rfl
      refine .append_right hplog ?_
      rcases hdecide with ⟨-, rfl⟩ | ⟨-, results, hresults⟩
      · exact .nil
      · refine forEach_distinct hresults (fun branch hbranch result inner hinner => ?_) ?_
        · obtain ⟨node, hnode, rfl⟩ := List.mem_map.mp hbranch
          exact ih node hnode (hunique.child hnode) hinner
        · intro i j branch branch' hij hbranch hbranch' b inner b' inner' hinner hinner' r r' hr hr'
            heq
          rw [List.getElem?_map, Option.map_eq_some_iff] at hbranch hbranch'
          obtain ⟨node, hnode, rfl⟩ := hbranch
          obtain ⟨node', hnode', rfl⟩ := hbranch'
          have hname : r.occurrence.node ∈ node.names := (eval_effects hmode node hinner _ hr).1
          have hname' : r'.occurrence.node ∈ node'.names :=
            (eval_effects hmode node' hinner' _ hr').1
          rw [heq] at hname
          exact absurd (hunique.index_eq hnode hnode' hname hname') hij.ne
  | loop group body untilGuard maxIterations maxIterationsInput ih =>
    intro hunique context c t status log h
    rw [eval_loop] at h
    obtain ⟨exit, first, second, hrun, -, rfl, hsecond⟩ := evalLoop_returns h
    refine .append_left (runIterations_distinct hmode ?_ hrun) hsecond.noDispatch
    exact fun hbody => ih (hunique.child List.mem_cons_self) hbody
  | map group body overItems maxItems ih =>
    intro hunique context c t status log h
    have hall := eval_dispatch hmode _ h
    have hbody := @ih (hunique.child List.mem_cons_self)
    rw [eval_map] at h
    obtain ⟨selected, items, -, -, hcase⟩ := evalMap_returns h
    rcases hcase with ⟨-, rfl, -, -⟩ | ⟨-, probes, plog, hprobes, hrun⟩
    · exact .of_noDispatch (hall.noDispatch (by simp))
    have hplog : NoDispatch plog := by
      intro r hr
      obtain ⟨k, item, result, inner, -, -, ⟨-, hinner⟩, hmem, -⟩ :=
        evaluateMapItems_mem_log hprobes hr
      exact (eval_dispatch hmode body hinner).noDispatch_of_mode rfl r hmem
    cases hrun with
    | finished => exact .of_noDispatch (hall.noDispatch (by simp))
    | terminal index found item s dlog hfound hitem hdecide =>
      refine .append_right hplog (.append_left ?_ ?_)
      · rcases hdecide with ⟨-, -, rfl⟩ | ⟨-, c', hagain⟩
        · exact .nil
        · exact hbody hagain
      · intro r hr
        simp [itemRecord, itemScope] at hr
    | pending results rlog _ hresults _ =>
      refine .append_right hplog ?_
      rcases hresults with ⟨-, -, rfl⟩ | ⟨-, hresults⟩
      · exact .nil
      · refine forEach_distinct hresults (fun item _ result inner hinner => ?_) ?_
        · exact hbody (itemRun_of_returns hinner).2
        · intro i j item item' hij hitem hitem' b inner b' inner' hinner hinner' r r' hr hr'
          have hindex : ∀ {k : Nat} {item : Value × Nat}, items.zipIdx[k]? = some item →
              item.2 = k := by
            intro k item hk
            simp only [List.getElem?_zipIdx, Nat.zero_add, Option.map_eq_some_iff] at hk
            obtain ⟨value, -, rfl⟩ := hk
            rfl
          have hne : item.2 ≠ item'.2 := by
            rw [hindex hitem, hindex hitem']
            exact hij.ne
          exact items_apart hmode hne (itemRun_of_returns hinner) (itemRun_of_returns hinner') hr
            hr'
  | succeed node =>
    intro _ context c t status log h
    obtain ⟨output, -, -, -, rfl⟩ := evalSucceed_returns h
    exact .nil
  | fail node =>
    intro _ context c t status log h
    obtain ⟨-, -, rfl⟩ := evalFail_returns h
    exact .nil

end Engine

/-! ## Visits that were evaluated to their end -/

/-- Every visit that the context counts satisfies `P`. -/
def Marks (P : StructuralOccurrence → Nat → Prop) (context : Context) : Prop :=
  ∀ occurrence number, 1 ≤ number → number ≤ context.visits occurrence → P occurrence number

namespace Marks

variable {P : StructuralOccurrence → Nat → Prop} {context c : Context}

theorem of_sameCounts (h : Marks P context) (hsame : SameCounts context c) : Marks P c := by
  intro occurrence number hpos hle
  rw [hsame occurrence] at hle
  exact h occurrence number hpos hle

theorem clearWrites (h : Marks P context) : Marks P context.clearWrites := h

/-- Counters taken over from another context. -/
theorem extend {controls : OrdMap ControlKey Control} {source target : Context}
    (hsource : Marks P source) (htarget : Marks P target)
    (hget : ∀ (occurrence : StructuralOccurrence) control,
      OrdMap.get? controls (visitKey occurrence.node occurrence.mapIndices) = some control →
        OrdMap.get? source.controls (visitKey occurrence.node occurrence.mapIndices) =
          some control) {merged : Context}
    (hmerged : merged.controls = OrdMap.extend target.controls controls) : Marks P merged := by
  intro occurrence number hpos hle
  rw [Context.visits, lastVisit, hmerged, OrdMap.get?_extend] at hle
  cases hkey : OrdMap.get? controls (visitKey occurrence.node occurrence.mapIndices) with
  | some control =>
    rw [hkey, Option.some_or] at hle
    refine hsource occurrence number hpos ?_
    rw [Context.visits, lastVisit, hget _ control hkey]
    exact hle
  | none =>
    rw [hkey, Option.none_or] at hle
    exact htarget occurrence number hpos hle

theorem mergeRuntimeFacts {source target : Context} (hsource : Marks P source)
    (htarget : Marks P target) : Marks P (Zeroshot.mergeRuntimeFacts source target) :=
  extend hsource htarget (fun _ _ h => h) rfl

theorem mergeScoped {names : List NodeName} {mapIndices : List Nat} {source target : Context}
    (hsource : Marks P source) (htarget : Marks P target) :
    Marks P (mergeScopedRuntimeFacts names mapIndices source target) := by
  refine extend hsource htarget (fun occurrence control h => ?_) rfl
  rw [get?_scoped] at h
  split at h
  · exact h
  · cases h

end Marks

namespace Engine

variable {engine : Engine} {P : StructuralOccurrence → Nat → Prop}

theorem promoted_marks {name : NodeName} {paths : List FieldPath} {local' parent c : Context}
    (h : engine.promoted name paths local' parent = .ok c) (hlocal : Marks P local')
    (hparent : Marks P parent) : Marks P c := by
  simp only [promoted, except_bind_eq_ok] at h
  obtain ⟨optional, -, ⟨state, values⟩, -, hc⟩ := h
  cases hc
  exact hlocal.mergeRuntimeFacts hparent

theorem joinContexts_marks {group : Group} {mapIndices : List Nat}
    {winners : List (GraphNode × Context)} {joined c : Context}
    (h : joinContexts group mapIndices winners joined = .ok c)
    (hwinners : ∀ winner ∈ winners, Marks P winner.2) (hjoined : Marks P joined) : Marks P c := by
  induction winners generalizing joined with
  | nil =>
    cases h
    exact hjoined
  | cons winner winners ih =>
    simp only [joinContexts, except_bind_eq_ok] at h
    obtain ⟨copied, hcopied, hrest⟩ := h
    rw [List.forall_mem_cons] at hwinners
    refine ih hrest hwinners.2 (hwinners.1.mergeScoped ?_)
    refine hjoined.of_sameCounts fun occurrence => ?_
    rw [Context.visits, copyWrites_controls hcopied, Context.visits]

theorem mergeItems_marks {names : List NodeName} {results : List MapItemResult} {context : Context}
    (hresults : ∀ result ∈ results, Marks P result.context) (hcontext : Marks P context) :
    Marks P (mergeItems names results context) := by
  induction results generalizing context with
  | nil => exact hcontext
  | cons result results ih =>
    rw [List.forall_mem_cons] at hresults
    exact ih hresults.2 (hresults.1.mergeScoped hcontext)

/-! ## Sources -/

/-- A visit of an executable that asks for the dispatch; all visits counted before satisfy `P`. -/
structure Source (engine : Engine) (P : StructuralOccurrence → Nat → Prop) (node : GraphNode)
    (r : DispatchRequest) where
  leaf : GraphNode
  spec : ExecutableSpec
  context : Context
  t : Traversal
  input : Value
  mem : leaf ∈ node.descendants
  isLeaf : leaf.spec? = some spec
  marks : Marks P context
  asks : LeafLog engine spec t.mapIndices (context.visits ⟨spec.name, t.mapIndices⟩ + 1) input t
    .pending [.dispatch r]

theorem Source.of_child {node child : GraphNode} {r : DispatchRequest}
    (h : Nonempty (Source engine P child r)) (hchild : child ∈ node.children) :
    Nonempty (Source engine P node r) := by
  obtain ⟨source⟩ := h
  exact ⟨{ source with mem := mem_descendants_of_child hchild source.mem }⟩

/-- What an evaluation from a context with marks keeps: marks when it is not pending, and a source
for each dispatch. -/
structure Sourced (engine : Engine) (P : StructuralOccurrence → Nat → Prop) (node : GraphNode)
    (status : Status) (c : Context) (log : List Effect) : Prop where
  marks : status ≠ .pending → Marks P c
  sources : ∀ r, .dispatch r ∈ log → Nonempty (Source engine P node r)

/-- Every evaluation of the node from a context with marks keeps them. -/
def KeepsMarks (engine : Engine) (P : StructuralOccurrence → Nat → Prop) (node : GraphNode) :
    Prop :=
  ∀ ⦃context c : Context⦄ ⦃t : Traversal⦄ ⦃status : Status⦄ ⦃log : List Effect⦄,
    (engine.eval node context t).Returns (status, c) log → Marks P context →
      Sourced engine P node status c log

theorem leaf_keepsMarks (hmode : engine.executionMode = .nativeV2) {node : GraphNode}
    {spec : ExecutableSpec} (hspec : node.spec? = some spec)
    (hevaluates : engine.eval node = engine.evalExecutable spec)
    (hleaf : ∀ mapIndices number cutoff outcome,
      engine.leafOutcome spec mapIndices number cutoff = some outcome →
        P ⟨spec.name, mapIndices⟩ number) : engine.KeepsMarks P node := by
  intro context c t status log h hmarks
  rw [hevaluates] at h
  obtain ⟨number, input, rest, hnumber, -, -, rfl, hresult, hlog⟩ := evalExecutable_returns hmode h
  have hnext : number = context.visits ⟨spec.name, t.mapIndices⟩ + 1 := hnumber
  constructor
  · intro hne
    obtain ⟨-, hpending, -⟩ | ⟨p, o, applied, houtcome, -, happlied⟩ := leafResult_returns hresult
    · exact absurd hpending hne
    · intro occurrence k hpos hle
      rw [applyOutcome_sameCounts happlied] at hle
      by_cases heq : occurrence = ⟨spec.name, t.mapIndices⟩
      · rw [heq, visits_markVisit_self] at hle
        by_cases hlast : k = number
        · rw [heq, hlast]
          exact hleaf _ _ _ _ houtcome
        · exact heq ▸ hmarks _ k hpos (by omega)
      · rw [visits_markVisit_ne heq] at hle
        exact hmarks occurrence k hpos hle
  · intro r hr
    have hmem : node ∈ node.descendants := by
      rw [GraphNode.descendants_eq]
      exact List.mem_cons_self
    have hrest : .dispatch r ∈ rest := by
      rcases List.mem_cons.mp hr with heq | hr
      · cases heq
      · exact hr
    have hasks : LeafLog engine spec t.mapIndices number input t .pending [.dispatch r] := by
      cases hlog with
      | waiting => cases hrest
      | missing hempty hmay =>
        cases List.mem_singleton.mp hrest
        exact .missing hempty hmay
      | retry e attempt hlast hcrashed hattempt hceiling hmay =>
        cases List.mem_singleton.mp hrest
        exact .retry e attempt hlast hcrashed hattempt hceiling hmay
      | done position _ hdecisions => exact absurd hrest (hdecisions.noDispatch r)
    rw [hnext] at hasks
    exact ⟨⟨node, spec, context, t, input, hmem, hspec, hmarks, hasks⟩⟩

theorem runChildren_marks {nodes : List GraphNode} {parent : GraphNode} {t : Traversal}
    (hnodes : ∀ node ∈ nodes, engine.KeepsMarks P node ∧ node ∈ parent.children)
    {position : HistoryPosition} {context c : Context} {status : Status} {log : List Effect}
    (h : (runChildren (nodes.map engine.eval) position context t).Returns (status, c) log)
    (hmarks : Marks P context) : Sourced engine P parent status c log := by
  induction nodes generalizing position context log with
  | nil =>
    obtain ⟨-, rfl, rfl⟩ := runChildren_nil h
    exact ⟨fun _ => hmarks, fun _ hr => by cases hr⟩
  | cons node nodes ih =>
    rw [List.forall_mem_cons] at hnodes
    rcases runChildren_cons h with ⟨p, c', first, second, hfirst, hrest, rfl⟩ |
      ⟨s, hfirst, hstops, rfl⟩
    · have hnode := hnodes.1.1 hfirst hmarks
      have hlater := ih hnodes.2 hrest (hnode.marks (by simp))
      refine ⟨hlater.marks, fun r hr => ?_⟩
      rcases List.mem_append.mp hr with hr | hr
      · exact Source.of_child (hnode.sources r hr) hnodes.1.2
      · exact hlater.sources r hr
    · have hnode := hnodes.1.1 hfirst hmarks
      refine ⟨fun hne => hnode.marks ?_, fun r hr =>
        Source.of_child (hnode.sources r hr) hnodes.1.2⟩
      rintro rfl
      exact hne rfl

theorem runIterations_marks {body parent : GraphNode} (hbody : engine.KeepsMarks P body)
    (hchild : body ∈ parent.children) {names : List NodeName} {untilGuard : Option Guard}
    {t : Traversal} {remaining iteration : Nat} {position : HistoryPosition} {context : Context}
    {exit : LoopExit} {log : List Effect}
    (h : (engine.runIterations names (engine.eval body) untilGuard t remaining iteration position
      context).Returns exit log) (hmarks : Marks P context) :
    (∀ local' p label, exit = .completed local' p label → Marks P local') ∧
      ∀ r, .dispatch r ∈ log → Nonempty (Source engine P parent r) := by
  induction remaining generalizing iteration position context log with
  | zero =>
    obtain ⟨hexit, rfl⟩ := returns_pure.mp h
    refine ⟨fun local' p label hcompleted => ?_, fun _ hr => (by cases hr)⟩
    rw [hexit] at hcompleted
    cases hcompleted
    exact hmarks
  | succ remaining ih =>
    have hstart : Marks P (iterationContext names t context) :=
      hmarks.of_sameCounts (iterationContext_sameCounts names t context)
    rcases runIterations_succ h with ⟨p, c, first, second, hfirst, rfl, hcase⟩ |
      ⟨s, c, hfirst, -, rfl⟩
    · have hnode := hbody hfirst hstart
      rcases hcase with ⟨-, rfl, rfl⟩ | ⟨-, hrest⟩
      · refine ⟨fun local' q label hcompleted => ?_, fun r hr => ?_⟩
        · cases hcompleted
          exact hnode.marks (by simp)
        · rw [List.append_nil] at hr
          exact Source.of_child (hnode.sources r hr) hchild
      · obtain ⟨hlocal, hsources⟩ := ih hrest (hnode.marks (by simp))
        refine ⟨hlocal, fun r hr => ?_⟩
        rcases List.mem_append.mp hr with hr | hr
        · exact Source.of_child (hnode.sources r hr) hchild
        · exact hsources r hr
    · have hnode := hbody hfirst hstart
      refine ⟨fun _ _ _ hcompleted => (by cases hcompleted), fun r hr => ?_⟩
      exact Source.of_child (hnode.sources r hr) hchild

/-- The evaluations of the branches of a parallel visit. -/
theorem branches_sources {nodes : List GraphNode} {parent : GraphNode}
    (hnodes : ∀ node ∈ nodes, engine.KeepsMarks P node ∧ node ∈ parent.children)
    {context : Context} {t : Traversal} {results : List (Status × Context)} {log : List Effect}
    (h : (forEach (fun branch : Child => branch.run context t) (nodes.map engine.child)).Returns
      results log) (hmarks : Marks P context) :
    ∀ r, .dispatch r ∈ log → Nonempty (Source engine P parent r) := by
  intro r hr
  obtain ⟨k, branch, result, inner, hbranch, -, hinner, hmem, -⟩ := forEach_mem_log h hr
  obtain ⟨node, hnode, rfl⟩ := List.mem_map.mp (List.mem_of_getElem? hbranch)
  obtain ⟨hkeeps, hchild⟩ := hnodes node hnode
  exact Source.of_child ((hkeeps hinner hmarks).sources r hmem) hchild

theorem par_keepsMarks (hmode : engine.executionMode = .nativeV2) {group : Group}
    {branches : List GraphNode} {join : Join}
    (hbranches : ∀ branch ∈ branches, engine.KeepsMarks P branch) :
    engine.KeepsMarks P (.par group branches join) := by
  intro context c t status log h hmarks
  have hnone := eval_dispatch hmode _ h
  have hchildren : ∀ branch ∈ branches, engine.KeepsMarks P branch ∧
      branch ∈ (GraphNode.par group branches join).children := fun branch hbranch =>
    ⟨hbranches branch hbranch, hbranch⟩
  rw [eval_par] at h
  obtain ⟨probes, plog, hprobes, hrun⟩ := evalParallel_returns h
  cases hrun with
  | opened dlog _ _ hdecide =>
    refine ⟨fun hne => absurd rfl hne, fun r hr => ?_⟩
    rcases List.mem_append.mp hr with hr | hr
    · exact branches_sources hchildren hprobes hmarks.clearWrites r hr
    · rcases hdecide with ⟨-, rfl⟩ | ⟨-, results, hresults⟩
      · cases hr
      · exact branches_sources hchildren hresults hmarks r hr
  | unreachable dlog _ _ _ =>
    refine ⟨fun _ => ?_, fun r hr => absurd hr (hnone.noDispatch (by simp) r)⟩
    exact hmarks.of_sameCounts (recordParallelControl_sameCounts _ _ _ _ _ _)
  | reached position joined wlog first last hmany hposition hjoin hfirst hlast =>
    refine ⟨fun _ => ?_, fun r hr => absurd hr (hnone.noDispatch (by simp) r)⟩
    obtain ⟨runs, hruns, hcontexts, -⟩ := joinParallelWinners_returns hjoin
    have hjoined : Marks P joined := by
      refine joinContexts_marks hcontexts (fun winner hwinner => ?_) hmarks.clearWrites
      obtain ⟨run, hrun, rfl⟩ := List.mem_map.mp hwinner
      obtain ⟨index, -, hbranch, hreturns⟩ := forall₂_mem_right hruns hrun
      obtain ⟨node, hnode, hchild⟩ := List.mem_map.mp (List.mem_of_getElem? hbranch)
      rw [← hchild] at hreturns
      exact (hbranches node hnode hreturns hmarks.clearWrites).marks (by simp)
    exact Marks.of_sameCounts hjoined (recordParallelControl_sameCounts _ _ _ _ _ _)

theorem map_keepsMarks (hmode : engine.executionMode = .nativeV2) {group : Group}
    {body : GraphNode} {overItems : DataSelector} {maxItems : PositiveInteger}
    (hbody : engine.KeepsMarks P body) :
    engine.KeepsMarks P (.map group body overItems maxItems) := by
  intro context c t status log h hmarks
  have hnone := eval_dispatch hmode _ h
  have hchild : body ∈ (GraphNode.map group body overItems maxItems).children :=
    List.mem_cons_self
  have hitems : ∀ {t' : Traversal} {items results log'},
      (evaluateMapItems (engine.eval body) context t' items).Returns results log' →
        ∀ r, .dispatch r ∈ log' →
          Nonempty (Source engine P (.map group body overItems maxItems) r) := by
    intro t' items results log' hresults r hr
    obtain ⟨k, item, result, inner, -, -, ⟨-, hinner⟩, hmem, -⟩ :=
      evaluateMapItems_mem_log hresults hr
    exact Source.of_child ((hbody hinner hmarks.clearWrites).sources r hmem) hchild
  rw [eval_map] at h
  obtain ⟨selected, items, -, -, hcase⟩ := evalMap_returns h
  rcases hcase with ⟨-, rfl, rfl, -⟩ | ⟨-, probes, plog, hprobes, hrun⟩
  · refine ⟨fun _ => ?_, fun r hr => absurd hr (hnone.noDispatch (by simp) r)⟩
    exact hmarks.of_sameCounts (setControl_sameCounts engine group.name (.inr (by decide)) _ _ _)
  cases hrun with
  | terminal index found item s dlog hfound hitem hdecide =>
    refine ⟨fun _ => hmarks, fun r hr => ?_⟩
    rcases List.mem_append.mp hr with hr | hr
    · exact hitems hprobes r hr
    rcases List.mem_append.mp hr with hr | hr
    · rcases hdecide with ⟨-, -, rfl⟩ | ⟨-, c', hagain⟩
      · cases hr
      · exact Source.of_child ((hbody hagain hmarks).sources r hr) hchild
    · simp [itemRecord, itemScope] at hr
  | pending results rlog _ hresults _ =>
    refine ⟨fun hne => absurd rfl hne, fun r hr => ?_⟩
    rcases List.mem_append.mp hr with hr | hr
    · exact hitems hprobes r hr
    · rcases hresults with ⟨-, -, rfl⟩ | ⟨-, hresults⟩
      · cases hr
      · exact hitems hresults r hr
  | finished results rlog dlog c hfound hresults hsettled hclose hlog =>
    refine ⟨fun _ => ?_, fun r hr => absurd hr (hnone.noDispatch (by simp) r)⟩
    obtain ⟨merged, hsame, rfl⟩ := closeMap_visits hclose
    have hruns : ∃ t' rlog, (evaluateMapItems (engine.eval body) context t' items).Returns results
        rlog := by
      rcases hresults with ⟨-, rfl, -⟩ | ⟨-, hdecide⟩
      · exact ⟨_, plog, hprobes⟩
      · exact ⟨_, rlog, hdecide⟩
    obtain ⟨t', rlog, hruns⟩ := hruns
    refine mergeItems_marks (fun result hresult => ?_) (hmarks.of_sameCounts hsame)
    obtain ⟨k, hk⟩ := List.getElem?_of_mem hresult
    obtain ⟨item, inner, -, ⟨-, hinner⟩, -⟩ := evaluateMapItems_get_result hruns hk
    exact (hbody hinner hmarks.clearWrites).marks (hsettled result hresult)

/-- **Where dispatches come from.** -/
theorem eval_sources (hmode : engine.executionMode = .nativeV2) (node : GraphNode)
    (hleaf : ∀ leaf ∈ node.descendants, ∀ spec, leaf.spec? = some spec →
      ∀ mapIndices number cutoff outcome,
        engine.leafOutcome spec mapIndices number cutoff = some outcome →
          P ⟨spec.name, mapIndices⟩ number) : engine.KeepsMarks P node := by
  have hself : ∀ node : GraphNode, node ∈ node.descendants := by
    intro node
    rw [GraphNode.descendants_eq]
    exact List.mem_cons_self
  induction node using GraphNode.induct with
  | step node =>
    exact leaf_keepsMarks hmode (rfl : (GraphNode.step node).spec? = _) rfl
      (hleaf _ (hself _) _ rfl)
  | verifier node =>
    exact leaf_keepsMarks hmode (rfl : (GraphNode.verifier node).spec? = _) rfl
      (hleaf _ (hself _) _ rfl)
  | seq group children ih =>
    intro context c t status log h hmarks
    rw [eval_seq] at h
    obtain ⟨local', first, second, hrun, hclose, rfl, hsecond⟩ := evalSequence_returns h
    have hchildren : ∀ node ∈ children, engine.KeepsMarks P node ∧
        node ∈ (GraphNode.seq group children).children := fun node hnode =>
      ⟨ih node hnode fun leaf hin => hleaf leaf (mem_descendants_of_child hnode hin), hnode⟩
    have hlocal := runChildren_marks hchildren hrun hmarks.clearWrites
    refine ⟨fun hne => ?_, fun r hr => ?_⟩
    · cases status with
      | continuing p => exact promoted_marks hclose (hlocal.marks hne) hmarks
      | pending => exact absurd rfl hne
      | terminal p r =>
        cases hclose
        exact hmarks
    · rcases List.mem_append.mp hr with hr | hr
      · exact hlocal.sources r hr
      · exact absurd hr (hsecond.noDispatch r)
  | choice group branches otherwise ihbranches ihotherwise =>
    intro context c t status log h hmarks
    obtain ⟨node, local', first, second, hnode, hrun, hclose, rfl, hsecond⟩ :=
      eval_choice_returns engine h
    have hchild : node ∈ (GraphNode.choice group branches otherwise).children :=
      selectNode_child hnode
    have hkeeps : engine.KeepsMarks P node := by
      have hleaf' : ∀ leaf ∈ node.descendants, ∀ spec, leaf.spec? = some spec →
          ∀ mapIndices number cutoff outcome,
            engine.leafOutcome spec mapIndices number cutoff = some outcome →
              P ⟨spec.name, mapIndices⟩ number := fun leaf hin =>
        hleaf leaf (mem_descendants_of_child hchild hin)
      rcases selectNode_mem hnode with ⟨branch, hbranch, rfl⟩ | hother
      · exact ihbranches branch hbranch hleaf'
      · exact ihotherwise node hother hleaf'
    have hlocal := hkeeps hrun hmarks.clearWrites
    refine ⟨fun hne => ?_, fun r hr => ?_⟩
    · cases status with
      | continuing p =>
        simp only [closeChoice, except_bind_eq_ok] at hclose
        obtain ⟨c', hpromoted, hc⟩ := hclose
        cases hc
        exact (hlocal.marks hne).mergeRuntimeFacts
          (promoted_marks hpromoted (hlocal.marks hne) hmarks)
      | pending => exact absurd rfl hne
      | terminal p r =>
        cases hclose
        exact hmarks
    · rcases List.mem_append.mp hr with hr | hr
      · exact Source.of_child (hlocal.sources r hr) hchild
      · exact absurd hr (hsecond.noDispatch r)
  | par group branches join ih =>
    refine par_keepsMarks hmode fun branch hbranch => ih branch hbranch fun leaf hin => ?_
    exact hleaf leaf (mem_descendants_of_child hbranch hin)
  | loop group body untilGuard maxIterations maxIterationsInput ih =>
    intro context c t status log h hmarks
    have hchild : body ∈ (GraphNode.loop group body untilGuard maxIterations
      maxIterationsInput).children := List.mem_cons_self
    rw [eval_loop] at h
    obtain ⟨exit, first, second, hrun, hclose, rfl, hsecond⟩ := evalLoop_returns h
    obtain ⟨hlocal, hsources⟩ := runIterations_marks
      (ih fun leaf hin => hleaf leaf (mem_descendants_of_child hchild hin)) hchild hrun hmarks
    refine ⟨fun _ => ?_, fun r hr => ?_⟩
    · cases exit with
      | stopped s =>
        cases hclose
        exact hmarks
      | completed local' position label =>
        simp only [closeLoop, except_bind_eq_ok] at hclose
        obtain ⟨c', hpromoted, hc⟩ := hclose
        cases hc
        refine promoted_marks hpromoted ?_ (hmarks.of_sameCounts (clearScoped_sameCounts _ _ _))
        exact (hlocal local' position label rfl).of_sameCounts
          (setControl_sameCounts engine group.name (.inr (by decide)) _ _ _)
    · rcases List.mem_append.mp hr with hr | hr
      · exact hsources r hr
      · exact absurd hr (hsecond.noDispatch r)
  | map group body overItems maxItems ih =>
    refine map_keepsMarks hmode (ih fun leaf hin => hleaf leaf ?_)
    exact mem_descendants_of_child List.mem_cons_self hin
  | succeed node =>
    intro context c t status log h hmarks
    obtain ⟨output, -, -, rfl, rfl⟩ := evalSucceed_returns h
    exact ⟨fun _ => hmarks, fun _ hr => by cases hr⟩
  | fail node =>
    intro context c t status log h hmarks
    obtain ⟨-, rfl, rfl⟩ := evalFail_returns h
    exact ⟨fun _ => hmarks, fun _ hr => by cases hr⟩

end Engine

end Zeroshot
