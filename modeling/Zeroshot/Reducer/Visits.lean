import Zeroshot.Reducer.Facts

set_option autoImplicit false

/-!
# Visit counters

The number of visits of an executable is a control fact of the context. An evaluation never lowers
a counter (`eval_counts`), and every visit it makes has a number its context has not counted and
takes the executions of that number, also when the evaluation fails (`eval_visit_of`).
-/

namespace Zeroshot

open Logged

/-- The number of visits of an occurrence the context records. -/
def Context.visits (context : Context) (occurrence : StructuralOccurrence) : Nat :=
  lastVisit occurrence.node occurrence.mapIndices context.controls

/-- No counter is lower in `after`. -/
def Counts (before after : Context) : Prop :=
  ∀ occurrence, before.visits occurrence ≤ after.visits occurrence

theorem Counts.refl (context : Context) : Counts context context := fun _ => Nat.le_refl _

theorem Counts.trans {a b c : Context} (h : Counts a b) (h' : Counts b c) : Counts a c :=
  fun occurrence => (h occurrence).trans (h' occurrence)

/-- The same counters. -/
def SameCounts (before after : Context) : Prop :=
  ∀ occurrence, after.visits occurrence = before.visits occurrence

theorem SameCounts.counts {a b : Context} (h : SameCounts a b) : Counts a b :=
  fun occurrence => (h occurrence).ge

/-! ## Counters under the context operations -/

theorem visitKey_inj {name name' : NodeName} {mapIndices mapIndices' : List Nat}
    (h : visitKey name mapIndices = visitKey name' mapIndices') :
    name = name' ∧ mapIndices = mapIndices' := by
  cases h
  exact ⟨rfl, rfl⟩

theorem visits_insert_ne {context : Context} {key : ControlKey} {control : Control}
    {occurrence : StructuralOccurrence}
    (h : visitKey occurrence.node occurrence.mapIndices ≠ key) :
    ({ context with controls := OrdMap.insert key control context.controls } : Context).visits
      occurrence = context.visits occurrence := by
  simp only [Context.visits, lastVisit, OrdMap.get?_insert_ne h]

theorem visits_markVisit_self (name : NodeName) (mapIndices : List Nat) (number : Nat)
    (context : Context) :
    (markVisit name mapIndices number context).visits ⟨name, mapIndices⟩ = number := by
  simp only [Context.visits, lastVisit, markVisit, OrdMap.get?_insert_self]

theorem visits_markVisit_ne {name : NodeName} {mapIndices : List Nat} {number : Nat}
    {context : Context} {occurrence : StructuralOccurrence} (h : occurrence ≠ ⟨name, mapIndices⟩) :
    (markVisit name mapIndices number context).visits occurrence = context.visits occurrence := by
  refine visits_insert_ne fun hkey => h ?_
  obtain ⟨hname, hindices⟩ := visitKey_inj hkey
  cases occurrence
  simp_all

theorem setControl_sameCounts (engine : Engine) (node : NodeName) {source : ControlSource}
    {field : Option String} (h : source ≠ .group ∨ field ≠ some "__reducer_visit")
    (label : String) (mapIndices : List Nat) (context : Context) :
    SameCounts context (engine.setControl node source field label mapIndices context) := by
  intro occurrence
  refine visits_insert_ne fun hkey => ?_
  have hsource : ControlSource.group = source := congrArg ControlKey.source hkey
  have hfield : some "__reducer_visit" = field := congrArg ControlKey.field hkey
  exact h.elim (fun h => h hsource.symm) fun h => h hfield.symm

theorem setSignals_sameCounts (engine : Engine) (name : NodeName) (mapIndices : List Nat)
    (signals : OrdMap FieldName EnumLabel) (context : Context) :
    SameCounts context (engine.setSignals name mapIndices signals context) := by
  induction signals generalizing context with
  | nil => exact fun _ => rfl
  | cons entry signals ih =>
    obtain ⟨field, label⟩ := entry
    intro occurrence
    rw [Engine.setSignals, ih]
    exact setControl_sameCounts engine name (.inl (by decide)) _ _ _ occurrence

theorem applyBindings_controls {mapIndices : List Nat} {bindings : List WriteBinding}
    {context c : Context} (h : applyBindings mapIndices context bindings = .ok c) :
    c.controls = context.controls := by
  induction bindings generalizing context with
  | nil =>
    cases h
    rfl
  | cons binding bindings ih =>
    simp only [applyBindings, except_bind_eq_ok] at h
    obtain ⟨value, -, state, -, hrest⟩ := h
    have hcontrols := ih hrest
    exact hcontrols

theorem applyOutcome_sameCounts {engine : Engine} {spec : Engine.ExecutableSpec}
    {mapIndices : List Nat} {outcome : WorkerOutcome} {context c : Context} {applied : Bool}
    (h : engine.applyOutcome spec mapIndices outcome context = .ok (c, applied)) :
    SameCounts context c := by
  have hwrites : ∀ {context c : Context} {channel : Channels},
      applyWrites context spec.name channel spec.writeBindings mapIndices = .ok c →
        SameCounts context c := by
    intro context c channel hc occurrence
    have hcontrols := applyBindings_controls hc
    simp only [Context.visits, hcontrols]
  cases outcome with
  | error code =>
    cases h
    exact setControl_sameCounts engine _ (.inl (by decide)) _ _ _
  | verified output =>
    simp only [Engine.applyOutcome] at h
    split at h
    · cases h
    · simp only [except_bind_eq_ok] at h
      obtain ⟨c', hc', hr⟩ := h
      cases hr
      exact hwrites hc'
  | verifier output signals diagnostic =>
    simp only [Engine.applyOutcome] at h
    split at h
    · simp only [except_bind_eq_ok] at h
      obtain ⟨c', hc', hr⟩ := h
      cases hr
      intro occurrence
      rw [hwrites hc', setSignals_sameCounts]
    · cases h

/-- Merged facts win where they count at least as much. -/
theorem visits_extend {controls : OrdMap ControlKey Control} {local' : Context}
    {occurrence : StructuralOccurrence} (target : Context)
    (hget : OrdMap.get? controls (visitKey occurrence.node occurrence.mapIndices) =
      OrdMap.get? local'.controls (visitKey occurrence.node occurrence.mapIndices))
    (h : target.visits occurrence ≤ local'.visits occurrence) :
    ({ target with controls := OrdMap.extend target.controls controls } : Context).visits
      occurrence = local'.visits occurrence := by
  simp only [Context.visits, lastVisit, OrdMap.get?_extend, hget] at h ⊢
  cases hlocal : OrdMap.get? local'.controls (visitKey occurrence.node occurrence.mapIndices) with
  | some control => rfl
  | none =>
    rw [hlocal] at h
    exact Nat.le_zero.mp h

theorem visits_mergeRuntimeFacts {local' target : Context} {occurrence : StructuralOccurrence}
    (h : target.visits occurrence ≤ local'.visits occurrence) :
    (mergeRuntimeFacts local' target).visits occurrence = local'.visits occurrence :=
  visits_extend target rfl h

/-- Whether a scoped merge takes over the facts of an occurrence. -/
def InScope (names : List NodeName) (mapIndices : List Nat) (occurrence : StructuralOccurrence) :
    Prop :=
  occurrence.node ∈ names ∧ mapIndices <+: occurrence.mapIndices

theorem get?_scoped (names : List NodeName) (mapIndices : List Nat)
    (controls : OrdMap ControlKey Control) (occurrence : StructuralOccurrence) :
    OrdMap.get? (controls.filter fun entry =>
        names.contains entry.1.node && mapIndices.isPrefixOf entry.1.mapIndices)
        (visitKey occurrence.node occurrence.mapIndices) =
      if names.contains occurrence.node && mapIndices.isPrefixOf occurrence.mapIndices then
        OrdMap.get? controls (visitKey occurrence.node occurrence.mapIndices)
      else none :=
  OrdMap.get?_filter
    (fun key : ControlKey => names.contains key.node && mapIndices.isPrefixOf key.mapIndices)
    controls (visitKey occurrence.node occurrence.mapIndices)

theorem inScope_iff {names : List NodeName} {mapIndices : List Nat}
    {occurrence : StructuralOccurrence} :
    (names.contains occurrence.node && mapIndices.isPrefixOf occurrence.mapIndices) = true ↔
      InScope names mapIndices occurrence := by
  rw [Bool.and_eq_true, List.contains_iff_mem, List.isPrefixOf_iff_prefix, InScope]

theorem visits_mergeScoped_of_inScope {names : List NodeName} {mapIndices : List Nat}
    {local' target : Context} {occurrence : StructuralOccurrence}
    (hscope : InScope names mapIndices occurrence)
    (h : target.visits occurrence ≤ local'.visits occurrence) :
    (mergeScopedRuntimeFacts names mapIndices local' target).visits occurrence =
      local'.visits occurrence := by
  refine visits_extend target ?_ h
  rw [get?_scoped, if_pos (inScope_iff.mpr hscope)]

theorem visits_mergeScoped_of_not {names : List NodeName} {mapIndices : List Nat}
    {local' target : Context} {occurrence : StructuralOccurrence}
    (hscope : ¬ InScope names mapIndices occurrence) :
    (mergeScopedRuntimeFacts names mapIndices local' target).visits occurrence =
      target.visits occurrence := by
  simp only [Context.visits, lastVisit, mergeScopedRuntimeFacts, OrdMap.get?_extend, get?_scoped,
    if_neg fun h => hscope (inScope_iff.mp h), Option.none_or]

/-- A scoped merge of facts that count at least `base` into a context that does. -/
theorem mergeScoped_counts {names : List NodeName} {mapIndices : List Nat}
    {base local' target : Context} (h : Counts base local') (h' : Counts base target) :
    Counts base (mergeScopedRuntimeFacts names mapIndices local' target) := by
  intro occurrence
  by_cases hscope : InScope names mapIndices occurrence
  · cases hget : OrdMap.get? local'.controls
        (visitKey occurrence.node occurrence.mapIndices) with
    | some control =>
      have hmerged : (mergeScopedRuntimeFacts names mapIndices local' target).visits occurrence =
          local'.visits occurrence := by
        simp only [Context.visits, lastVisit, mergeScopedRuntimeFacts, OrdMap.get?_extend,
          get?_scoped, if_pos (inScope_iff.mpr hscope), hget, Option.some_or]
      rw [hmerged]
      exact h occurrence
    | none =>
      have hmerged : (mergeScopedRuntimeFacts names mapIndices local' target).visits occurrence =
          target.visits occurrence := by
        simp only [Context.visits, lastVisit, mergeScopedRuntimeFacts, OrdMap.get?_extend,
          get?_scoped, if_pos (inScope_iff.mpr hscope), hget, Option.none_or]
      rw [hmerged]
      exact h' occurrence
  · rw [visits_mergeScoped_of_not hscope]
    exact h' occurrence

theorem clearScoped_sameCounts (names : List NodeName) (mapIndices : List Nat)
    (context : Context) :
    SameCounts context (clearScopedRuntimeFacts names mapIndices context) := by
  intro occurrence
  have hget := OrdMap.get?_filter
    (fun key : ControlKey => !names.contains key.node || !mapIndices.isPrefixOf key.mapIndices ||
      (key.source == .group && key.field == some "__reducer_visit"))
    context.controls (visitKey occurrence.node occurrence.mapIndices)
  have hkeep : (!names.contains (visitKey occurrence.node occurrence.mapIndices).node ||
      !mapIndices.isPrefixOf (visitKey occurrence.node occurrence.mapIndices).mapIndices ||
      ((visitKey occurrence.node occurrence.mapIndices).source == .group &&
        (visitKey occurrence.node occurrence.mapIndices).field == some "__reducer_visit")) =
      true := by
    simp [visitKey]
  rw [if_pos hkeep] at hget
  simp only [Context.visits, lastVisit, clearScopedRuntimeFacts, hget]

theorem promoted_visits {engine : Engine} {node : NodeName} {paths : List FieldPath}
    {local' parent c : Context} (h : engine.promoted node paths local' parent = .ok c)
    {occurrence : StructuralOccurrence}
    (hle : parent.visits occurrence ≤ local'.visits occurrence) :
    c.visits occurrence = local'.visits occurrence := by
  simp only [Engine.promoted, except_bind_eq_ok] at h
  obtain ⟨optional, -, promoted, -, hr⟩ := h
  cases hr
  exact visits_mergeRuntimeFacts hle

theorem copyWrites_controls {branch joined c : Context} {paths : List FieldPath}
    (h : copyWrites branch joined paths = .ok c) : c.controls = joined.controls := by
  induction paths generalizing joined with
  | nil =>
    cases h
    rfl
  | cons path paths ih =>
    simp only [copyWrites, except_bind_eq_ok] at h
    obtain ⟨value, -, state, -, hrest⟩ := h
    have hcontrols := ih hrest
    exact hcontrols

theorem collectItems_controls {items : List Context} {local' c : Context}
    {paths collected : List FieldPath} (h : collectItems items local' paths = .ok (c, collected)) :
    c.controls = local'.controls := by
  induction paths generalizing local' c collected with
  | nil =>
    cases h
    rfl
  | cons path paths ih =>
    rw [collectItems] at h
    split at h
    · exact ih h
    · simp only [except_bind_eq_ok] at h
      obtain ⟨values, -, state, -, ⟨c', collected'⟩, hrest, hr⟩ := h
      cases hr
      have hcontrols := ih hrest
      exact hcontrols

theorem joinContexts_counts {group : Group} {mapIndices : List Nat} {base joined c : Context}
    {winners : List (GraphNode × Context)}
    (h : Engine.joinContexts group mapIndices winners joined = .ok c)
    (hwinners : ∀ winner ∈ winners, Counts base winner.2) (hjoined : Counts base joined) :
    Counts base c := by
  induction winners generalizing joined with
  | nil =>
    cases h
    exact hjoined
  | cons winner winners ih =>
    obtain ⟨node, local'⟩ := winner
    simp only [Engine.joinContexts, except_bind_eq_ok] at h
    obtain ⟨copied, hcopied, hrest⟩ := h
    refine ih hrest (fun w hw => hwinners w (List.mem_cons_of_mem _ hw)) ?_
    refine mergeScoped_counts (hwinners _ List.mem_cons_self) fun occurrence => ?_
    simp only [Context.visits, copyWrites_controls hcopied]
    exact hjoined occurrence

theorem mergeItems_counts {names : List NodeName} {base context : Context}
    {results : List Engine.MapItemResult} (hresults : ∀ r ∈ results, Counts base r.context)
    (hcontext : Counts base context) : Counts base (Engine.mergeItems names results context) := by
  induction results generalizing context with
  | nil => exact hcontext
  | cons result results ih =>
    exact ih (fun r hr => hresults r (List.mem_cons_of_mem _ hr))
      (mergeScoped_counts (hresults _ List.mem_cons_self) hcontext)

namespace Engine

theorem recordParallelControl_sameCounts (engine : Engine) (group : Group) (join : Join)
    (reached : Bool) (mapIndices : List Nat) (context : Context) :
    SameCounts context (engine.recordParallelControl group join reached mapIndices context) := by
  cases join <;> exact setControl_sameCounts engine _ (.inr (by decide)) _ _ _

/-- The counters after a map all of whose items continue, before the items are merged. -/
theorem closeMap_visits {engine : Engine} {group : Group} {node : GraphNode}
    {mapIndices : List Nat} {results : List MapItemResult} {context c : Context}
    (h : engine.closeMap group node mapIndices results context = .ok c) :
    ∃ merged, SameCounts context merged ∧ c = mergeItems node.names results merged := by
  simp only [closeMap, except_bind_eq_ok] at h
  obtain ⟨⟨local', collected⟩, hcollected, promoted, hpromoted, hr⟩ := h
  cases hr
  refine ⟨promoted, fun occurrence => ?_, rfl⟩
  have hlocal : (engine.setGroupControl group.name "overflow" "ok" mapIndices local').visits
      occurrence = context.visits occurrence := by
    rw [setGroupControl, setControl_sameCounts engine _ (.inr (by decide))]
    simp only [Context.visits, collectItems_controls hcollected]
  rw [promoted_visits hpromoted hlocal.ge, hlocal]

/-- A completed loop leaves the counters of its last iteration. -/
theorem closeLoop_visits {engine : Engine} {group : Group} {names : List NodeName}
    {mapIndices : List Nat} {context c local' : Context} {position p : HistoryPosition}
    {label : String}
    (h : engine.closeLoop group names mapIndices context (.completed local' position label) =
      .ok (.continuing p, c)) (hcounts : Counts context local') : SameCounts local' c := by
  simp only [closeLoop, except_bind_eq_ok] at h
  obtain ⟨promoted, hpromoted, hr⟩ := h
  cases hr
  intro occurrence
  have hterminated : (engine.setGroupControl group.name "terminated" label mapIndices
      local').visits occurrence = local'.visits occurrence :=
    setControl_sameCounts engine _ (.inr (by decide)) _ _ _ occurrence
  have hcleared := clearScoped_sameCounts names mapIndices context occurrence
  rw [promoted_visits hpromoted, hterminated]
  rw [hterminated, hcleared]
  exact hcounts occurrence

/-! ## Evaluations -/

variable {engine : Engine}

theorem evalExecutable_counts (hmode : engine.executionMode = .nativeV2) {spec : ExecutableSpec}
    {context c : Context} {t : Traversal} {status : Status} {log : List Effect}
    (h : (engine.evalExecutable spec context t).Returns (status, c) log) : Counts context c := by
  obtain ⟨number, input, rest, hnumber, -, -, rfl, hresult, hleaf⟩ :=
    evalExecutable_returns hmode h
  have hnext : number = context.visits ⟨spec.name, t.mapIndices⟩ + 1 := hnumber
  have hmarked : Counts context (markVisit spec.name t.mapIndices number context) := by
    intro occurrence
    by_cases heq : occurrence = ⟨spec.name, t.mapIndices⟩
    · rw [heq, visits_markVisit_self]
      omega
    · rw [visits_markVisit_ne heq]
  obtain ⟨-, -, rfl⟩ | ⟨q, o, applied, -, -, happlied⟩ := leafResult_returns hresult
  · exact hmarked
  · exact hmarked.trans (applyOutcome_sameCounts happlied).counts

theorem runChildren_counts {children : List Evaluator} {t : Traversal}
    (hchildren : ∀ child ∈ children, ∀ context status c log,
      (child context t).Returns (status, c) log → Counts context c)
    {position : HistoryPosition} {context c : Context} {status : Status} {log : List Effect}
    (h : (runChildren children position context t).Returns (status, c) log) :
    Counts context c := by
  induction children generalizing position context log with
  | nil =>
    obtain ⟨-, rfl, rfl⟩ := runChildren_nil h
    exact .refl _
  | cons child rest ih =>
    have hchild := hchildren child List.mem_cons_self
    obtain ⟨p, c', first, second, hrun, hrest, -⟩ | ⟨s, hrun, -, -⟩ := runChildren_cons h
    · exact (hchild _ _ _ _ hrun).trans
        (ih (fun child hmem => hchildren child (List.mem_cons_of_mem _ hmem)) hrest)
    · exact hchild _ _ _ _ hrun

theorem iterationContext_sameCounts (names : List NodeName) (t : Traversal) (context : Context) :
    SameCounts context (iterationContext names t context) :=
  clearScoped_sameCounts names t.mapIndices context

theorem runIterations_counts {names : List NodeName} {body : Evaluator}
    {untilGuard : Option Guard} {t : Traversal}
    (hbody : ∀ iteration context status c log,
      (body context (iterationTraversal t iteration)).Returns (status, c) log → Counts context c)
    {remaining iteration : Nat} {position p : HistoryPosition} {context local' : Context}
    {label : String} {log : List Effect}
    (h : (engine.runIterations names body untilGuard t remaining iteration position
      context).Returns (.completed local' p label) log) : Counts context local' := by
  induction remaining generalizing iteration position context log with
  | zero =>
    obtain ⟨hexit, -⟩ := returns_pure.mp h
    cases hexit
    exact .refl _
  | succ remaining ih =>
    obtain ⟨p, c, first, second, hrun, -, hnext⟩ | ⟨s, c, -, -, hexit⟩ := runIterations_succ h
    · have hcounts : Counts context c :=
        (iterationContext_sameCounts names t context).counts.trans (hbody _ _ _ _ _ hrun)
      obtain ⟨-, hexit, -⟩ | ⟨-, hrest⟩ := hnext
      · cases hexit
        exact hcounts
      · exact hcounts.trans (ih hrest)
    · cases hexit

/-- **Counters never go down.** -/
theorem eval_counts (hmode : engine.executionMode = .nativeV2) (node : GraphNode) :
    ∀ {context c : Context} {t : Traversal} {status : Status} {log : List Effect},
      (engine.eval node context t).Returns (status, c) log → Counts context c := by
  induction node using GraphNode.induct with
  | step node => exact fun h => evalExecutable_counts hmode h
  | verifier node => exact fun h => evalExecutable_counts hmode h
  | seq group children ih =>
    intro context c t status log h
    rw [eval_seq] at h
    obtain ⟨local', first, second, hchildren, hclose, -, -⟩ := evalSequence_returns h
    have hrun : Counts context.clearWrites local' := by
      refine runChildren_counts ?_ hchildren
      intro child hchild context status c log hrun
      obtain ⟨node, hnode, rfl⟩ := List.mem_map.mp hchild
      exact ih node hnode hrun
    cases status with
    | continuing p =>
      intro occurrence
      have hcounts : context.visits occurrence ≤ local'.visits occurrence := hrun occurrence
      rw [promoted_visits hclose hcounts]
      exact hcounts
    | pending =>
      cases hclose
      exact .refl _
    | terminal p r =>
      cases hclose
      exact .refl _
  | choice group branches otherwise ihbranches ihotherwise =>
    intro context c t status log h
    obtain ⟨node, local', first, second, hnode, hinner, hclose, -, -⟩ :=
      eval_choice_returns engine h
    have hrun : Counts context.clearWrites local' := by
      rcases selectNode_mem hnode with ⟨b, hb, rfl⟩ | hother
      · exact ihbranches b hb hinner
      · exact ihotherwise node hother hinner
    cases status with
    | continuing p =>
      intro occurrence
      have hcounts : context.visits occurrence ≤ local'.visits occurrence := hrun occurrence
      simp only [closeChoice, except_bind_eq_ok] at hclose
      obtain ⟨promoted, hpromoted, hr⟩ := hclose
      cases hr
      rw [visits_mergeRuntimeFacts (promoted_visits hpromoted hcounts).le]
      exact hcounts
    | pending =>
      cases hclose
      exact .refl _
    | terminal p r =>
      cases hclose
      exact .refl _
  | par group branches join ih =>
    intro context c t status log h
    rw [eval_par] at h
    obtain ⟨probes, plog, hprobes, hrun⟩ := evalParallel_returns h
    cases hrun with
    | opened => exact .refl _
    | unreachable dlog =>
      exact (recordParallelControl_sameCounts engine group join false _ context).counts
    | reached position joined wlog first last _ _ hjoin =>
      obtain ⟨runs, hruns, hcontexts, -⟩ := joinParallelWinners_returns hjoin
      have hjoined : Counts context joined := by
        refine joinContexts_counts hcontexts ?_ (.refl _)
        intro winner hwinner
        obtain ⟨run, hrun, rfl⟩ := List.mem_map.mp hwinner
        obtain ⟨k, hk, rfl⟩ := List.getElem_of_mem hrun
        obtain ⟨hbranch, hinner⟩ :=
          (List.forall₂_iff_get.mp hruns).2 k (hruns.length_eq ▸ hk) hk
        obtain ⟨node, hnode, hchild⟩ := List.mem_map.mp (List.mem_of_getElem? hbranch)
        rw [← hchild] at hinner
        have hcounts : Counts context.clearWrites runs[k].context := ih node hnode hinner
        exact hcounts
      refine hjoined.trans (SameCounts.counts fun occurrence => ?_)
      rw [joinedContext, recordParallelControl_sameCounts]
      rfl
  | loop group body untilGuard maxIterations maxIterationsInput ih =>
    intro context c t status log h
    rw [eval_loop] at h
    obtain ⟨exit, first, second, hiterations, hclose, -, -⟩ := evalLoop_returns h
    cases exit with
    | stopped s =>
      cases hclose
      exact .refl _
    | completed local' position label =>
      have hlocal : Counts context local' :=
        runIterations_counts (fun iteration context status c log hrun => ih hrun) hiterations
      obtain ⟨p, rfl⟩ : ∃ p, status = .continuing p := by
        simp only [closeLoop, except_bind_eq_ok] at hclose
        obtain ⟨_, -, hr⟩ := hclose
        cases hr
        exact ⟨_, rfl⟩
      exact hlocal.trans (closeLoop_visits hclose hlocal).counts
  | map group body overItems maxItems ih =>
    intro context c t status log h
    rw [eval_map] at h
    obtain ⟨selected, items, -, -, hmap⟩ := evalMap_returns h
    obtain ⟨-, rfl, rfl, -⟩ | ⟨-, probes, plog, hprobes, hrun⟩ := hmap
    · exact (setControl_sameCounts engine _ (.inr (by decide)) _ _ _).counts
    have hcounts : ∀ {t' : Traversal} {results log'},
        (evaluateMapItems (engine.child body).run context t' items).Returns results log' →
        ∀ r ∈ results, Counts context r.context := by
      intro t' results log' hresults r hr
      obtain ⟨k, hk⟩ := List.getElem?_of_mem hr
      obtain ⟨item, inner, -, ⟨-, hinner⟩, -⟩ := evaluateMapItems_get_result hresults hk
      have hcounts : Counts context.clearWrites r.context := ih hinner
      exact hcounts
    cases hrun with
    | terminal => exact .refl _
    | pending => exact .refl _
    | finished results rlog dlog _ hnone hresults hsettled hclose =>
      obtain ⟨merged, hmerged, rfl⟩ := closeMap_visits hclose
      refine mergeItems_counts ?_ hmerged.counts
      obtain ⟨-, rfl, -⟩ | ⟨-, hresults⟩ := hresults
      · exact hcounts hprobes
      · exact hcounts hresults
  | succeed node =>
    intro context c t status log h
    obtain ⟨output, -, -, rfl, -⟩ := evalSucceed_returns h
    exact .refl _
  | fail node =>
    intro context c t status log h
    obtain ⟨-, rfl, -⟩ := evalFail_returns h
    exact .refl _

/-! ## The number and the executions of a visit -/

/-- The visit is made below the node, in its scope, with a number the context has not counted, and
takes the executions of that number. -/
structure VisitOf (engine : Engine) (node : GraphNode) (context : Context) (mapIndices : List Nat)
    (v : Visit) : Prop where
  name : v.occurrence.node ∈ node.names
  scope : mapIndices <+: v.occurrence.mapIndices
  above : context.visits v.occurrence < v.number
  executions : v.executions =
    (engine.visitExecutions v.occurrence v.number).map DurableExecution.execution

section

variable {engine : Engine}

theorem VisitOf.of_child {node child : GraphNode} {context c : Context}
    {mapIndices inner : List Nat} {v : Visit} (h : VisitOf engine child c inner v)
    (hchild : child ∈ node.children) (hcounts : Counts context c) (hscope : mapIndices <+: inner) :
    VisitOf engine node context mapIndices v :=
  ⟨GraphNode.names_child hchild h.name, hscope.trans h.scope,
    (hcounts v.occurrence).trans_lt h.above, h.executions⟩

theorem evalExecutable_visit_of (hmode : engine.executionMode = .nativeV2) {node : GraphNode}
    {spec : ExecutableSpec} (hname : spec.name ∈ node.names) {context : Context} {t : Traversal}
    {v : Visit} (hv : .visit v ∈ (engine.evalExecutable spec context t).log) :
    VisitOf engine node context t.mapIndices v := by
  obtain ⟨input, -, heffect⟩ := evalExecutable_fact hmode rfl hv
  cases heffect
  exact ⟨hname, List.prefix_refl _, Nat.lt_succ_self _, rfl⟩

/-- A visit among children is made by one of them, after the children before it returned. -/
theorem runChildren_visit_of (hmode : engine.executionMode = .nativeV2) {nodes : List GraphNode}
    {t : Traversal} {v : Visit}
    (hnodes : ∀ n ∈ nodes, ∀ context, .visit v ∈ (engine.eval n context t).log →
      VisitOf engine n context t.mapIndices v)
    {position : HistoryPosition} {context : Context}
    (hv : .visit v ∈ (runChildren (nodes.map engine.eval) position context t).log) :
    ∃ n ∈ nodes, ∃ c, Counts context c ∧ VisitOf engine n c t.mapIndices v := by
  induction nodes generalizing position context with
  | nil => cases hv
  | cons node nodes ih =>
    rcases mem_runChildren_log hv with hv | ⟨p, c, hrun, hv⟩
    · exact ⟨node, List.mem_cons_self, context, .refl _, hnodes node List.mem_cons_self _ hv⟩
    · obtain ⟨n, hn, d, hcounts, hvisit⟩ :=
        ih (fun n hn => hnodes n (List.mem_cons_of_mem _ hn)) hv
      exact ⟨n, List.mem_cons_of_mem _ hn, d, (eval_counts hmode node hrun).trans hcounts,
        hvisit⟩

theorem runIterations_visit_of (hmode : engine.executionMode = .nativeV2) {body : GraphNode}
    {t : Traversal} {v : Visit}
    (hbody : ∀ iteration context,
      .visit v ∈ (engine.eval body context (iterationTraversal t iteration)).log →
        VisitOf engine body context t.mapIndices v)
    {names : List NodeName} {untilGuard : Option Guard} {remaining iteration : Nat}
    {position : HistoryPosition} {context : Context}
    (hv : .visit v ∈ (engine.runIterations names (engine.eval body) untilGuard t remaining
      iteration position context).log) :
    ∃ c, Counts context c ∧ VisitOf engine body c t.mapIndices v := by
  induction remaining generalizing iteration position context with
  | zero => cases hv
  | succ remaining ih =>
    have hentry := (iterationContext_sameCounts names t context).counts
    rcases mem_runIterations_log hv with hv | ⟨p, c, hrun, -, hv⟩
    · exact ⟨_, hentry, hbody _ _ hv⟩
    · obtain ⟨d, hcounts, hvisit⟩ := ih hv
      exact ⟨d, (hentry.trans (eval_counts hmode body hrun)).trans hcounts, hvisit⟩

/-- **A visit of an evaluation**, whether the evaluation succeeds or fails. -/
theorem eval_visit_of (hmode : engine.executionMode = .nativeV2) (node : GraphNode) :
    ∀ {context : Context} {t : Traversal} {v : Visit},
      .visit v ∈ (engine.eval node context t).log → VisitOf engine node context t.mapIndices v := by
  induction node using GraphNode.induct with
  | step node => exact evalExecutable_visit_of hmode (GraphNode.name_mem_names (.step node))
  | verifier node => exact evalExecutable_visit_of hmode (GraphNode.name_mem_names (.verifier node))
  | seq group children ih =>
    intro context t v hv
    rw [eval_seq] at hv
    obtain ⟨n, hn, c, hcounts, hvisit⟩ :=
      runChildren_visit_of hmode (fun n hn _ hv => ih n hn hv) (evalSequence_fact rfl hv)
    exact hvisit.of_child hn hcounts (List.prefix_refl _)
  | choice group branches otherwise ihbranches ihotherwise =>
    intro context t v hv
    obtain ⟨node, hnode, hv⟩ := evalChoice_fact rfl hv
    have hchild : node ∈ (GraphNode.choice group branches otherwise).children :=
      selectNode_child hnode
    have hvisit : VisitOf engine node context.clearWrites t.mapIndices v := by
      rcases selectNode_mem hnode with ⟨b, hb, rfl⟩ | hother
      · exact ihbranches b hb hv
      · exact ihotherwise node hother hv
    exact hvisit.of_child hchild (.refl context) (List.prefix_refl _)
  | par group branches join ih =>
    intro context t v hv
    rw [eval_par] at hv
    cases evalParallel_fact rfl hv with
    | probed _ _ hk hv | decided _ _ hk _ _ _ hv | won _ _ hk _ _ _ hv =>
      obtain ⟨node, hnode, rfl⟩ := List.mem_map.mp (List.mem_of_getElem? hk)
      exact (ih node hnode hv).of_child hnode (.refl context) (List.prefix_refl _)
    | joined _ _ _ _ h => cases h
  | loop group body untilGuard maxIterations maxIterationsInput ih =>
    intro context t v hv
    rw [eval_loop] at hv
    obtain ⟨c, hcounts, hvisit⟩ := runIterations_visit_of hmode
      (fun iteration c hv => @ih c (iterationTraversal t iteration) v hv) (evalLoop_fact rfl hv)
    exact hvisit.of_child (List.mem_singleton_self body) hcounts (List.prefix_refl _)
  | map group body overItems maxItems ih =>
    intro context t v hv
    rw [eval_map] at hv
    obtain ⟨selected, items, -, -, -, hsource⟩ := evalMap_fact rfl hv
    cases hsource with
    | probed _ _ _ hv | decided _ _ _ _ _ _ hv | terminal _ _ _ _ _ _ _ _ _ hv =>
      exact (ih hv).of_child (List.mem_singleton_self body) (.refl context) (List.prefix_append _ _)
    | ended _ _ _ _ _ _ _ _ _ _ h => cases h
  | succeed node =>
    intro context t v hv
    exact (evalSucceed_fact hv).elim
  | fail node =>
    intro context t v hv
    cases hv

end

end Engine

end Zeroshot
