import Zeroshot.Protocol.Materialization
import Zeroshot.Run.Collection

set_option autoImplicit false

/-!
# What a group changes in its parent

A group evaluates its children in a copy of the parent's state and promotes some paths back.

* `Writes`: the paths that the descendants of a node write in one visit. A map counts as writing
  the paths that it collects, also over an empty list.
* `Framed`: a context changed nothing apart from the given writes.
* `promotion_frame`: a group that continues changes the parent's state at its promoted paths only,
  and there only what some descendant wrote.
-/

namespace Zeroshot

open Logged

/-! ## Storing what is there -/

/-- A write below a path changes the value at the path by the rest of the write. -/
theorem selectSegments_setSegments_above {value selected value' above : Value}
    {first rest : List FieldName} (hne : rest ≠ [])
    (h : setSegments value selected (first ++ rest) = .ok value')
    (habove : selectSegments value first = .ok above) :
    ∃ above', setSegments above selected rest = .ok above' ∧
      selectSegments value' first = .ok above' := by
  induction first generalizing value value' with
  | nil =>
    cases habove
    exact ⟨value', h, rfl⟩
  | cons segment first ih =>
    cases hrest : first ++ rest with
    | nil => exact absurd (List.append_eq_nil_iff.mp hrest).2 hne
    | cons next tail =>
      rw [List.cons_append, hrest] at h
      obtain ⟨object, child, rfl, hchild, rfl⟩ := setSegments_cons_cons h
      rw [selectSegments_object] at habove
      cases hget : OrdMap.get? object segment.asStr with
      | none =>
        rw [hget] at habove
        cases habove
      | some old =>
        rw [hget] at habove hchild
        rw [← hrest] at hchild
        obtain ⟨above', hset, hselect⟩ := ih hchild habove
        refine ⟨above', hset, ?_⟩
        rw [selectSegments_object, OrdMap.get?_insert_self]
        exact hselect

theorem Value.keyed_of_get? {object : OrdMap String Value} {key : String} {value : Value}
    (hkeyed : (Value.object object).keyed = true) (h : OrdMap.get? object key = some value) :
    value.keyed = true :=
  (Value.keyed_object.mp hkeyed).2 (key, value) (OrdMap.mem_of_get? h)

theorem keyed_selectSegments {value selected : Value} {segments : List FieldName}
    (hkeyed : value.keyed = true) (h : selectSegments value segments = .ok selected) :
    selected.keyed = true := by
  induction segments generalizing value with
  | nil =>
    cases h
    exact hkeyed
  | cons segment segments ih =>
    cases value with
    | object object =>
      rw [selectSegments_object] at h
      cases hget : OrdMap.get? object segment.asStr with
      | none =>
        rw [hget] at h
        cases h
      | some child =>
        rw [hget] at h
        exact ih (Value.keyed_of_get? hkeyed hget) h
    | _ => cases h

/-- Storing the value that is already there changes nothing. -/
theorem setSegments_same {value selected value' : Value} {segments : List FieldName}
    (hkeyed : value.keyed = true) (hselect : selectSegments value segments = .ok selected)
    (h : setSegments value selected segments = .ok value') : value' = value := by
  induction segments generalizing value value' with
  | nil => cases h
  | cons segment segments ih =>
    cases segments with
    | nil =>
      obtain ⟨object, rfl, rfl⟩ := setSegments_singleton h
      rw [selectSegments_object] at hselect
      cases hget : OrdMap.get? object segment.asStr with
      | none =>
        rw [hget] at hselect
        cases hselect
      | some child =>
        rw [hget] at hselect
        cases hselect
        rw [OrdMap.insert_eq_self (Value.keyed_object.mp hkeyed).1 hget]
    | cons next rest =>
      obtain ⟨object, child, rfl, hchild, rfl⟩ := setSegments_cons_cons h
      rw [selectSegments_object] at hselect
      cases hget : OrdMap.get? object segment.asStr with
      | none =>
        rw [hget] at hselect
        cases hselect
      | some old =>
        rw [hget] at hselect hchild
        cases ih (Value.keyed_of_get? hkeyed hget) hselect hchild
        rw [OrdMap.insert_eq_self (Value.keyed_object.mp hkeyed).1 hget]

/-- Storing below a path what is already there leaves the value at the path. -/
theorem select_setPath_below {state state' above selected : Value} {path other : FieldPath}
    (hcontains : path.contains other = true) (hne : path ≠ other)
    (hkeyed : above.keyed = true) (habove : select state path = .ok above)
    (hselect : select state other = .ok selected)
    (h : setPath state other selected = .ok state') : select state' path = .ok above := by
  obtain ⟨rest, hrest, hbelow⟩ := select_below hcontains habove
  have hrestne : rest ≠ [] := by
    rintro rfl
    rw [List.append_nil] at hrest
    exact hne (FieldPath.eq_of_segments hrest.symm)
  rw [setPath, hrest] at h
  obtain ⟨above', hset, hselect'⟩ := selectSegments_setSegments_above hrestne h habove
  rw [hbelow] at hselect
  cases setSegments_same hkeyed hselect hset
  exact hselect'

/-- Promoting from a state that agrees at a path leaves the path alone. -/
theorem promotePaths_agrees {local' : Context} {optional : OrdSet FieldPath} {parent state : Value}
    {paths : List FieldPath} {values : List PromotedValue} {path : FieldPath}
    (h : promotePaths local' optional parent paths = .ok (state, values))
    (hagree : select local'.state path = select parent path)
    (hkeyed : ∀ value, select parent path = .ok value → value.keyed = true) :
    select state path = select parent path := by
  induction paths generalizing parent values with
  | nil =>
    cases h
    rfl
  | cons first paths ih =>
    rcases promotePaths_cons h with ⟨-, -, hrest⟩ | ⟨value, next, rest, hvalue, hset, hrest⟩
    · exact ih hrest hagree hkeyed
    · have hnext : select next path = select parent path := by
        by_cases hmeets : first.Meets path
        · by_cases habove : first.contains path = true
          · obtain ⟨tail, htail, hbelow⟩ := select_below habove (select_setPath_self hset)
            obtain ⟨tail', htail', hbelow'⟩ := select_below habove hvalue
            rw [htail, List.append_cancel_left_eq] at htail'
            rw [hbelow, htail', ← hbelow', hagree]
          · have hcontains : path.contains first = true := hmeets.resolve_left habove
            have hne : path ≠ first := by
              rintro rfl
              exact habove (FieldPath.contains_refl path)
            cases hparent : select parent path with
            | ok above =>
              have hlocal : select local'.state path = .ok above := hagree.trans hparent
              obtain ⟨tail, htail, hbelow⟩ := select_below hcontains hlocal
              obtain ⟨tail', htail', hbelow'⟩ := select_below hcontains hparent
              rw [htail, List.append_cancel_left_eq] at htail'
              have hsame : select parent first = .ok value := by
                rw [hbelow', ← htail', ← hbelow, hvalue]
              exact select_setPath_below hcontains hne (hkeyed above hparent) hparent hsame hset
            | error error =>
              -- the local state has nothing below the path either
              have hlocal : select local'.state path = .error error := hagree.trans hparent
              obtain ⟨tail, htail⟩ := FieldPath.contains_iff.mp hcontains
              rw [select, ← htail, selectSegments_append] at hvalue
              rw [select] at hlocal
              rw [hlocal] at hvalue
              cases hvalue
        · exact select_setPath_apart hset hmeets
      rw [← hnext] at hagree hkeyed ⊢
      exact ih hrest hagree hkeyed

theorem copyWrites_apart {branch joined joined' : Context} {paths : List FieldPath}
    {path : FieldPath} (h : copyWrites branch joined paths = .ok joined')
    (hapart : ∀ other ∈ paths, ¬ other.Meets path) :
    select joined'.state path = select joined.state path := by
  induction paths generalizing joined with
  | nil =>
    cases h
    rfl
  | cons first paths ih =>
    simp only [copyWrites, except_bind_eq_ok] at h
    obtain ⟨value, -, state, hset, hrest⟩ := h
    rw [List.forall_mem_cons] at hapart
    rw [ih hrest hapart.2]
    exact select_setPath_apart hset hapart.1

theorem copyWrites_localWrites {branch joined joined' : Context} {paths : List FieldPath}
    (h : copyWrites branch joined paths = .ok joined') {written : FieldPath}
    (hin : written ∈ joined'.localWrites) : written ∈ joined.localWrites ∨ written ∈ paths := by
  induction paths generalizing joined with
  | nil =>
    cases h
    exact .inl hin
  | cons first paths ih =>
    simp only [copyWrites, except_bind_eq_ok] at h
    obtain ⟨value, -, state, -, hrest⟩ := h
    rcases ih hrest with hjoined | hpaths
    · rcases OrdSet.mem_insert.mp hjoined with rfl | hold
      · exact .inr List.mem_cons_self
      · exact .inl hold
    · exact .inr (List.mem_cons_of_mem _ hpaths)

/-! ## Recorded writes -/

/-- From one context to another only the given writes happened: the state agrees at every path that
meets none of them, and every recorded write lies at or below one of them, or one recorded
before. -/
structure Framed (writes : FieldPath → Prop) (before after : Context) : Prop where
  state : ∀ path, (∀ written, writes written → ¬ written.Meets path) →
    (∀ value, select before.state path = .ok value → value.keyed = true) →
      select after.state path = select before.state path
  recorded : ∀ path ∈ after.localWrites, ∃ written,
    (written ∈ before.localWrites ∨ writes written) ∧ written.contains path = true

namespace Framed

variable {writes writes' : FieldPath → Prop} {before middle after : Context}

theorem of_same (hstate : after.state = before.state)
    (hwrites : after.localWrites = before.localWrites) : Framed writes before after where
  state path _ _ := by rw [hstate]
  recorded path hin := by
    rw [hwrites] at hin
    exact ⟨path, .inl hin, FieldPath.contains_refl path⟩

theorem mono (h : Framed writes before after) (himp : ∀ path, writes path → writes' path) :
    Framed writes' before after where
  state path hnone hkeyed := h.state path (fun written hw => hnone written (himp written hw)) hkeyed
  recorded path hin := by
    obtain ⟨written, hwritten, hcontains⟩ := h.recorded path hin
    exact ⟨written, hwritten.imp_right (himp written), hcontains⟩

theorem trans (h : Framed writes before middle) (h' : Framed writes middle after) :
    Framed writes before after where
  state path hnone hkeyed := by
    have hmiddle := h.state path hnone hkeyed
    rw [← hmiddle] at hkeyed
    exact (h'.state path hnone hkeyed).trans hmiddle
  recorded path hin := by
    obtain ⟨written, hwritten | hwritten, hcontains⟩ := h'.recorded path hin
    · obtain ⟨first, hfirst, habove⟩ := h.recorded written hwritten
      exact ⟨first, hfirst, FieldPath.contains_trans habove hcontains⟩
    · exact ⟨written, .inr hwritten, hcontains⟩

/-- Only the state and the recorded writes matter. -/
theorem congr {before' after' : Context} (h : Framed writes before after)
    (hbefore : before.state = before'.state)
    (hwrites : ∀ path ∈ before.localWrites, path ∈ before'.localWrites)
    (hafter : after'.state = after.state)
    (hwrites' : ∀ path ∈ after'.localWrites, path ∈ after.localWrites) :
    Framed writes before' after' where
  state path hnone hkeyed := by
    rw [hafter, ← hbefore]
    rw [← hbefore] at hkeyed
    exact h.state path hnone hkeyed
  recorded path hin := by
    obtain ⟨written, hwritten, hcontains⟩ := h.recorded path (hwrites' path hin)
    exact ⟨written, hwritten.imp_left (hwrites written), hcontains⟩

/-- From a context without recorded writes, every recorded write lies at or below a write. -/
theorem recorded_clear {context : Context} (h : Framed writes context.clearWrites after)
    {path : FieldPath} (hin : path ∈ after.localWrites) :
    ∃ written, writes written ∧ written.contains path = true := by
  obtain ⟨written, hwritten | hwritten, hcontains⟩ := h.recorded path hin
  · cases hwritten
  · exact ⟨written, hwritten, hcontains⟩

end Framed

namespace Engine

variable {engine : Engine}

/-- A group's promotion of a local context. -/
theorem promoted_framed {name : NodeName} {paths : List FieldPath} {writes : FieldPath → Prop}
    {local' context c : Context} (h : engine.promoted name paths local' context = .ok c)
    (hlocal : Framed writes context local') : Framed writes context c := by
  simp only [promoted, except_bind_eq_ok] at h
  obtain ⟨optional, -, ⟨state, values⟩, hpaths, hc⟩ := h
  cases hc
  constructor
  · intro path hnone hkeyed
    exact promotePaths_agrees hpaths (hlocal.state path hnone hkeyed) hkeyed
  · intro path hin
    rcases OrdSet.mem_extend.mp hin with hpromoted | hold
    · obtain ⟨⟨written, hwritten, habove⟩, -⟩ := promotedWritePaths_below hpromoted
      obtain ⟨first, hfirst, hcontains⟩ := hlocal.recorded written hwritten
      exact ⟨first, hfirst, FieldPath.contains_trans hcontains habove⟩
    · exact ⟨path, .inl hold, FieldPath.contains_refl path⟩

theorem promoted_apart {name : NodeName} {paths : List FieldPath} {local' context c : Context}
    (h : engine.promoted name paths local' context = .ok c) {path : FieldPath}
    (hapart : ∀ other ∈ paths, ¬ other.Meets path) :
    select c.state path = select context.state path := by
  simp only [promoted, except_bind_eq_ok] at h
  obtain ⟨optional, -, ⟨state, values⟩, hpaths, hc⟩ := h
  cases hc
  exact promotePaths_apart hpaths hapart

/-! ## The writes of a visit -/

/-- The execution that settles this visit of an executable succeeded, so its writes apply. -/
def Succeeds (engine : Engine) (spec : ExecutableSpec) (context : Context) (t : Traversal) : Prop :=
  ∃ visit e position outcome, engine.resolveVisit spec context t.mapIndices = .ok (.ready visit) ∧
    visit.existing = some e ∧ visibleOutcome t.cutoff e = some (position, outcome) ∧
    ∀ code reason, outcome ≠ .error code reason

/-- A sequence starts one of its children in the given context. -/
inductive Reaches (engine : Engine) (t : Traversal) :
    List GraphNode → Context → GraphNode → Context → Prop
  | here (child : GraphNode) (rest : List GraphNode) (context : Context) :
      Reaches engine t (child :: rest) context child context
  | later {first child : GraphNode} {rest : List GraphNode} {context c c' : Context}
      {position : HistoryPosition} {log : List Effect}
      (hfirst : (engine.eval first context t).Returns (.continuing position, c) log)
      (hrest : Reaches engine t rest c child c') :
      Reaches engine t (first :: rest) context child c'

/-- A loop with some iterations left starts one of them from the given context. -/
inductive Iterates (engine : Engine) (names : List NodeName) (body : GraphNode)
    (untilGuard : Option Guard) (t : Traversal) : Nat → Nat → Context → Nat → Context → Prop
  | here (remaining iteration : Nat) (context : Context) :
      Iterates engine names body untilGuard t (remaining + 1) iteration context iteration context
  | later {remaining iteration index : Nat} {context c c' : Context} {position : HistoryPosition}
      {log : List Effect}
      (hbody : (engine.eval body (iterationContext names t context)
        (iterationTraversal t iteration)).Returns (.continuing position, c) log)
      (hguard : untilGuard.any (engine.guard c t.mapIndices) = false)
      (hrest : Iterates engine names body untilGuard t remaining (iteration + 1) c index c') :
      Iterates engine names body untilGuard t (remaining + 1) iteration context index c'

/-- A visit of a node evaluates a child: a child of a sequence up to the first that stops, the
branch a choice takes, the winners of a race that is won, every iteration of a loop and every item
of a map that does not overflow. -/
inductive Evaluates (engine : Engine) :
    GraphNode → Context → Traversal → GraphNode → Context → Traversal → Prop
  | seq {group : Group} {children : List GraphNode} {child : GraphNode} {context c : Context}
      {t : Traversal} (hreaches : engine.Reaches t children context.clearWrites child c) :
      Evaluates engine (.seq group children) context t child c t
  | choice {group : Group} {branches : List (Guard × GraphNode)} {otherwise : Option GraphNode}
      {child : GraphNode} {context : Context} {t : Traversal}
      (hselected : engine.selectNode context.clearWrites t.mapIndices branches otherwise =
        some child) :
      Evaluates engine (.choice group branches otherwise) context t child context.clearWrites t
  | par {group : Group} {branches : List GraphNode} {join : Join} {child : GraphNode}
      {context : Context} {t : Traversal} {probes : List (Status × Context)} {plog : List Effect}
      {index : Nat} {position : HistoryPosition}
      (hprobes : (probeParallel (branches.map engine.child) context
        (enterGroup group.name t)).Returns probes plog)
      (hreached : parallelJoinRequired join probes.length ≤
        (engine.completions join t.mapIndices probes).length)
      (hwinner : (index, position) ∈ engine.winnersOf join t.mapIndices probes)
      (hbranch : branches[index]? = some child) :
      Evaluates engine (.par group branches join) context t child context.clearWrites
        { enterGroup group.name t with
          cutoff := latest ((engine.winnersOf join t.mapIndices probes).map Prod.snd) }
  | loop {group : Group} {body : GraphNode} {untilGuard : Option Guard}
      {maxIterations : PositiveInteger} {maxIterationsInput : Option FieldPath}
      {context c : Context} {t : Traversal} {index : Nat}
      (hiterates : engine.Iterates (group.name :: body.names) body untilGuard t maxIterations.get 1
        context index c) :
      Evaluates engine (.loop group body untilGuard maxIterations maxIterationsInput) context t body
        (iterationContext (group.name :: body.names) t c) (iterationTraversal t index)
  | map {group : Group} {body : GraphNode} {overItems : DataSelector} {maxItems : PositiveInteger}
      {context : Context} {t : Traversal} {items : List Value} {item : Value} {k : Nat}
      (hitems : selectData overItems context.state t.item = .ok (.array items))
      (hfit : items.length ≤ maxItems.get) (hitem : items[k]? = some item) :
      Evaluates engine (.map group body overItems maxItems) context t body context.clearWrites
        (itemTraversal (enterGroup group.name t) (item, k))

/-- **The paths a visit writes**: the targets of executables that succeed, and the paths that maps
collect, here and in everything the visit evaluates. -/
inductive Writes (engine : Engine) : GraphNode → Context → Traversal → FieldPath → Prop
  | step {node : StepNode} {context : Context} {t : Traversal} {binding : WriteBinding}
      (hsucceeds : engine.Succeeds (stepSpec node) context t)
      (hbinding : binding ∈ node.writeBindings) :
      Writes engine (.step node) context t binding.target
  | verifier {node : VerifierNode} {context : Context} {t : Traversal} {binding : WriteBinding}
      (hsucceeds : engine.Succeeds (verifierSpec node) context t)
      (hbinding : binding ∈ node.writeBindings) :
      Writes engine (.verifier node) context t binding.target
  | collected {group : Group} {body : GraphNode} {overItems : DataSelector}
      {maxItems : PositiveInteger} {context c : Context} {t : Traversal} {items : List Value}
      {results : List MapItemResult} {position : HistoryPosition} {log rlog : List Effect}
      {path : FieldPath}
      (hreturns : (engine.eval (.map group body overItems maxItems) context t).Returns
        (.continuing position, c) log)
      (hitems : selectData overItems context.state t.item = .ok (.array items))
      (hfit : items.length ≤ maxItems.get)
      (hresults : (evaluateMapItems (engine.eval body) context (enterGroup group.name t)
        items).Returns results rlog)
      (hpath : path ∈ group.promotedStatePaths)
      (hwrote : EveryWrote (results.map MapItemResult.context) path) :
      Writes engine (.map group body overItems maxItems) context t path
  | inner {node child : GraphNode} {context context' : Context} {t t' : Traversal}
      {path : FieldPath} (hevaluates : engine.Evaluates node context t child context' t')
      (hwrites : Writes engine child context' t' path) : Writes engine node context t path

/-! ## Executables -/

theorem applyBindings_framed {mapIndices : List Nat} {context c : Context}
    {bindings : List WriteBinding} (h : applyBindings mapIndices context bindings = .ok c) :
    Framed (fun path => ∃ binding ∈ bindings, binding.target = path) context c := by
  induction bindings generalizing context with
  | nil =>
    cases h
    exact .of_same rfl rfl
  | cons binding bindings ih =>
    simp only [applyBindings, except_bind_eq_ok] at h
    obtain ⟨value, -, state, hset, hrest⟩ := h
    have hfirst : Framed (fun path => ∃ other ∈ binding :: bindings, other.target = path) context
        { context with
          state
          localWrites := OrdSet.insert binding.target context.localWrites } := by
      constructor
      · intro path hnone _
        exact select_setPath_apart hset (hnone _ ⟨binding, List.mem_cons_self, rfl⟩)
      · intro path hin
        refine ⟨path, ?_, FieldPath.contains_refl path⟩
        rcases OrdSet.mem_insert.mp hin with rfl | hold
        · exact .inr ⟨binding, List.mem_cons_self, rfl⟩
        · exact .inl hold
    refine hfirst.trans ((ih hrest).mono ?_)
    rintro path ⟨other, hother, htarget⟩
    exact ⟨other, List.mem_cons_of_mem _ hother, htarget⟩

@[simp]
theorem setSignals_state (name : NodeName) (mapIndices : List Nat)
    (signals : OrdMap FieldName EnumLabel) (context : Context) :
    (engine.setSignals name mapIndices signals context).state = context.state ∧
      (engine.setSignals name mapIndices signals context).localWrites = context.localWrites := by
  induction signals generalizing context with
  | nil => exact ⟨rfl, rfl⟩
  | cons signal signals ih => exact ih _

theorem applyOutcome_framed {spec : ExecutableSpec} {mapIndices : List Nat}
    {outcome : WorkerOutcome} {context c : Context} {applied : Bool}
    (h : engine.applyOutcome spec mapIndices outcome context = .ok (c, applied)) :
    Framed (fun path => (∀ code reason, outcome ≠ .error code reason) ∧
      ∃ binding ∈ spec.writeBindings, binding.target = path) context c := by
  cases outcome with
  | error code reason =>
    cases h
    exact .of_same rfl rfl
  | verified output artifacts =>
    simp only [applyOutcome] at h
    split at h
    · cases h
    · simp only [except_bind_eq_ok] at h
      obtain ⟨c', hwrites, hc⟩ := h
      cases hc
      refine Framed.congr ((applyBindings_framed hwrites).mono fun path hpath => ⟨?_, hpath⟩) rfl
        (fun _ hin => hin) rfl (fun _ hin => hin)
      intro code reason herror
      cases herror
  | verifier output signals diagnostic artifacts =>
    simp only [applyOutcome] at h
    split at h
    · simp only [except_bind_eq_ok] at h
      obtain ⟨c', hwrites, hc⟩ := h
      cases hc
      have hsignals := @setSignals_state engine spec.name mapIndices signals context
      refine Framed.congr ((applyBindings_framed hwrites).mono fun path hpath => ⟨?_, hpath⟩)
        hsignals.1 (fun _ hin => hsignals.2 ▸ hin) rfl (fun _ hin => hin)
      intro code reason herror
      cases herror
    · cases h

/-- A visit of an executable that continues writes its targets if it succeeded, else nothing. -/
theorem evalExecutable_framed {spec : ExecutableSpec} {context c : Context} {t : Traversal}
    {position : HistoryPosition} {log : List Effect}
    (h : (engine.evalExecutable spec context t).Returns (.continuing position, c) log) :
    Framed (fun path => engine.Succeeds spec context t ∧
      ∃ binding ∈ spec.writeBindings, binding.target = path) context c := by
  simp only [evalExecutable, returns_bind, returns_lift] at h
  obtain ⟨resolution, _, _, ⟨hresolution, rfl⟩, h, rfl⟩ := h
  cases resolution with
  | exhausted =>
    obtain ⟨hr, -⟩ := returns_pure.mp h
    cases hr
  | ready visit =>
    simp only [returns_bind, returns_lift] at h
    obtain ⟨input, _, _, ⟨hinput, rfl⟩, h, rfl⟩ := h
    split at h
    · exact absurd h returns_fail.mp
    simp only [returns_bind, returns_emit] at h
    obtain ⟨_, _, rest, rfl, h, rfl⟩ := h
    split at h
    case h_1 hmissing =>
      simp only [returns_bind, returns_pure] at h
      obtain ⟨_, _, _, -, ⟨hr, -⟩, -⟩ := h
      cases hr
    case h_2 e hexisting =>
      unfold finishExistingExecution at h
      split at h
      · obtain ⟨hr, -⟩ := returns_pure.mp h
        cases hr
      rename_i settled outcome hvisible
      split at h
      · simp only [returns_bind, returns_pure] at h
        obtain ⟨_, _, _, -, ⟨hr, -⟩, -⟩ := h
        cases hr
      · simp only [returns_bind, returns_lift] at h
        obtain ⟨applied, _, _, ⟨happlied, rfl⟩, h, -⟩ := h
        have hc : c = applied.1 := by
          split at h
          · simp only [returns_bind, returns_pure] at h
            obtain ⟨_, _, _, -, ⟨_, _, _, -, ⟨hr, -⟩, -⟩, -⟩ := h
            cases hr
            rfl
          · simp only [returns_bind, returns_pure] at h
            obtain ⟨_, _, _, -, ⟨hr, -⟩, -⟩ := h
            cases hr
            rfl
        rw [hc]
        refine Framed.congr ((applyOutcome_framed happlied).mono fun path hpath => ⟨?_, hpath.2⟩)
          rfl (fun _ hin => hin) rfl (fun _ hin => hin)
        exact ⟨visit, e, settled, outcome, hresolution, hexisting, hvisible, hpath.1⟩

/-! ## Groups -/

/-- Every visit of the node that continues makes the writes of its descendants only. -/
def VisitsFramed (engine : Engine) (node : GraphNode) : Prop :=
  ∀ {context c : Context} {t : Traversal} {position : HistoryPosition} {log : List Effect},
    (engine.eval node context t).Returns (.continuing position, c) log →
      Framed (engine.Writes node context t) context c

theorem runChildren_framed {nodes : List GraphNode} {t : Traversal}
    (hnodes : ∀ node ∈ nodes, engine.VisitsFramed node) {start position : HistoryPosition}
    {context c : Context} {log : List Effect}
    (h : (runChildren (nodes.map engine.eval) start context t).Returns (.continuing position, c)
      log) :
    Framed (fun path => ∃ child c', engine.Reaches t nodes context child c' ∧
      engine.Writes child c' t path) context c := by
  induction nodes generalizing start context log with
  | nil =>
    obtain ⟨-, rfl, -⟩ := runChildren_nil h
    exact .of_same rfl rfl
  | cons node nodes ih =>
    rw [List.forall_mem_cons] at hnodes
    rcases runChildren_cons h with ⟨p, c', first, second, hfirst, hrest, -⟩ | ⟨s, -, hstops, hs⟩
    · have hframed := hnodes.1 hfirst
      refine (hframed.mono fun path hpath => ?_).trans ((ih hnodes.2 hrest).mono ?_)
      · exact ⟨node, context, .here node nodes context, hpath⟩
      · rintro path ⟨child, c'', hreaches, hpath⟩
        exact ⟨child, c'', .later hfirst hreaches, hpath⟩
    · cases s with
      | continuing p => exact absurd rfl (hstops p)
      | pending => cases hs
      | terminal p r => cases hs

theorem runIterations_framed {names : List NodeName} {body : GraphNode}
    {untilGuard : Option Guard} {t : Traversal} (hbody : engine.VisitsFramed body)
    {remaining iteration : Nat} {start position : HistoryPosition} {context local' : Context}
    {label : String} {log : List Effect}
    (h : (engine.runIterations names (engine.eval body) untilGuard t remaining iteration start
      context).Returns (.completed local' position label) log) :
    Framed (fun path => ∃ index c, engine.Iterates names body untilGuard t remaining iteration
      context index c ∧ engine.Writes body (iterationContext names t c) (iterationTraversal t index)
        path) context local' := by
  induction remaining generalizing iteration start context log with
  | zero =>
    obtain ⟨hr, -⟩ := returns_pure.mp h
    cases hr
    exact .of_same rfl rfl
  | succ remaining ih =>
    rcases runIterations_succ h with ⟨p, c, first, second, hfirst, -, hcase⟩ | ⟨s, c, -, -, hs⟩
    · -- an iteration starts without recorded writes, in the state of the context
      have hframed : Framed (engine.Writes body (iterationContext names t context)
          (iterationTraversal t iteration)) context c :=
        (hbody hfirst).congr rfl (fun _ hin => by cases hin) rfl (fun _ hin => hin)
      have hhere := hframed.mono fun path hpath =>
        (⟨iteration, context, .here remaining iteration context, hpath⟩ :
          ∃ index c, engine.Iterates names body untilGuard t (remaining + 1) iteration context
            index c ∧ engine.Writes body (iterationContext names t c) (iterationTraversal t index)
              path)
      rcases hcase with ⟨-, hexit, -⟩ | ⟨hguard, hrest⟩
      · cases hexit
        exact hhere
      · refine hhere.trans ((ih hrest).mono ?_)
        rintro path ⟨index, c', hiterates, hpath⟩
        exact ⟨index, c', .later hfirst hguard hiterates, hpath⟩
    · cases hs

theorem joinContexts_framed {group : Group} {mapIndices : List Nat}
    {winners : List (GraphNode × Context)} {writes : FieldPath → Prop}
    {context joined joined' : Context}
    (hwinners : ∀ winner ∈ winners, Framed writes context.clearWrites winner.2)
    (h : joinContexts group mapIndices winners joined = .ok joined') :
    Framed writes joined joined' := by
  induction winners generalizing joined with
  | nil =>
    cases h
    exact .of_same rfl rfl
  | cons winner winners ih =>
    simp only [joinContexts, except_bind_eq_ok] at h
    obtain ⟨copied, hcopied, hrest⟩ := h
    rw [List.forall_mem_cons] at hwinners
    have hbelow : ∀ path ∈ promotedWritePaths winner.2.localWrites group.promotedStatePaths,
        ∃ written, writes written ∧ written.contains path = true := by
      intro path hin
      obtain ⟨⟨recorded, hrecorded, habove⟩, -⟩ := promotedWritePaths_below hin
      obtain ⟨written, hwritten, hcontains⟩ := hwinners.1.recorded_clear hrecorded
      exact ⟨written, hwritten, FieldPath.contains_trans hcontains habove⟩
    have hfirst : Framed writes joined copied := by
      constructor
      · intro path hnone _
        refine copyWrites_apart hcopied fun other hother hmeets => ?_
        obtain ⟨written, hwritten, hcontains⟩ := hbelow other hother
        exact hnone written hwritten (hmeets.of_above hcontains)
      · intro path hin
        rcases copyWrites_localWrites hcopied hin with hold | hpath
        · exact ⟨path, .inl hold, FieldPath.contains_refl path⟩
        · obtain ⟨written, hwritten, hcontains⟩ := hbelow path hpath
          exact ⟨written, .inr hwritten, hcontains⟩
    exact hfirst.trans ((ih hwinners.2 hrest).congr rfl (fun _ hin => hin) rfl (fun _ hin => hin))

theorem joinContexts_apart {group : Group} {mapIndices : List Nat}
    {winners : List (GraphNode × Context)} {joined joined' : Context}
    (h : joinContexts group mapIndices winners joined = .ok joined') {path : FieldPath}
    (hapart : ∀ promoted ∈ group.promotedStatePaths, ¬ promoted.Meets path) :
    select joined'.state path = select joined.state path := by
  induction winners generalizing joined with
  | nil =>
    cases h
    rfl
  | cons winner winners ih =>
    simp only [joinContexts, except_bind_eq_ok] at h
    obtain ⟨copied, hcopied, hrest⟩ := h
    have hcopied' : select copied.state path = select joined.state path := by
      refine copyWrites_apart hcopied fun other hother hmeets => ?_
      obtain ⟨-, target, htarget, hcontains⟩ := promotedWritePaths_below hother
      exact hapart target htarget (hmeets.of_above hcontains)
    exact (ih hrest).trans hcopied'

@[simp]
theorem recordParallelControl_state (group : Group) (join : Join) (reached : Bool)
    (mapIndices : List Nat) (context : Context) :
    (engine.recordParallelControl group join reached mapIndices context).state = context.state := by
  cases join <;> rfl

@[simp]
theorem recordParallelControl_localWrites (group : Group) (join : Join) (reached : Bool)
    (mapIndices : List Nat) (context : Context) :
    (engine.recordParallelControl group join reached mapIndices context).localWrites =
      context.localWrites := by
  cases join <;> rfl

@[simp]
theorem mergeItems_localWrites (names : List NodeName) (results : List MapItemResult)
    (context : Context) :
    (mergeItems names results context).localWrites = context.localWrites := by
  induction results generalizing context with
  | nil => rfl
  | cons result results ih =>
    rw [mergeItems, ih]
    rfl

/-- A map that completes writes the paths it collects. -/
theorem closeMap_framed {group : Group} {body : GraphNode} {mapIndices : List Nat}
    {results : List MapItemResult} {context c : Context}
    (h : engine.closeMap group body mapIndices results context = .ok c) :
    Framed (fun path => path ∈ group.promotedStatePaths ∧
      EveryWrote (results.map MapItemResult.context) path) context c := by
  constructor
  · intro path hnone _
    refine (closeMap_select h path).2 fun other hother => ?_
    obtain ⟨hpromoted, hwrote⟩ := List.mem_filter.mp hother
    exact hnone other ⟨hpromoted, of_decide_eq_true hwrote⟩
  · intro path hin
    simp only [closeMap, promoted, except_bind_eq_ok] at h
    obtain ⟨⟨local', collected⟩, hcollect, c', ⟨optional, -, ⟨state, values⟩, -, hc'⟩, hc⟩ := h
    cases hc
    cases hc'
    rw [mergeItems_localWrites] at hin
    rcases OrdSet.mem_extend.mp hin with hpromoted | hold
    · obtain ⟨-, target, htarget, hcontains⟩ := promotedWritePaths_below hpromoted
      obtain ⟨hpath, hwrote⟩ := (mem_collected hcollect).mp htarget
      exact ⟨target, .inr ⟨hpath, hwrote⟩, hcontains⟩
    · exact ⟨path, .inl hold, FieldPath.contains_refl path⟩

theorem sequence_framed {group : Group} {children : List GraphNode}
    (hchildren : ∀ child ∈ children, engine.VisitsFramed child) :
    engine.VisitsFramed (.seq group children) := by
  intro context c t position log h
  rw [eval_seq] at h
  obtain ⟨local', first, second, hrun, hclose, -, -⟩ := evalSequence_returns h
  have hlocal := (runChildren_framed hchildren hrun).mono fun path ⟨child, c', hreaches, hwrites⟩ =>
    (Writes.inner (.seq hreaches) hwrites : engine.Writes (.seq group children) context t path)
  exact promoted_framed hclose
    (hlocal.congr rfl (fun _ hin => by cases hin) rfl (fun _ hin => hin))

theorem choice_framed {group : Group} {branches : List (Guard × GraphNode)}
    {otherwise : Option GraphNode}
    (hbranches : ∀ branch ∈ branches, engine.VisitsFramed branch.2)
    (hotherwise : ∀ node ∈ otherwise, engine.VisitsFramed node) :
    engine.VisitsFramed (.choice group branches otherwise) := by
  intro context c t position log h
  obtain ⟨node, local', first, second, hselected, hrun, hclose, -, -⟩ :=
    eval_choice_returns engine h
  have hnode : engine.VisitsFramed node := by
    rcases selectNode_mem hselected with ⟨branch, hbranch, rfl⟩ | hnode
    · exact hbranches branch hbranch
    · exact hotherwise node hnode
  simp only [closeChoice, except_bind_eq_ok] at hclose
  obtain ⟨c', hpromoted, hc⟩ := hclose
  cases hc
  have hlocal := (hnode hrun).mono fun path hwrites =>
    (Writes.inner (.choice hselected) hwrites :
      engine.Writes (.choice group branches otherwise) context t path)
  have hframed := promoted_framed hpromoted
    (hlocal.congr rfl (fun _ hin => by cases hin) rfl (fun _ hin => hin))
  exact hframed.congr rfl (fun _ hin => hin) rfl (fun _ hin => hin)

theorem loop_framed {group : Group} {body : GraphNode} {untilGuard : Option Guard}
    {maxIterations : PositiveInteger} {maxIterationsInput : Option FieldPath}
    (hbody : engine.VisitsFramed body) :
    engine.VisitsFramed (.loop group body untilGuard maxIterations maxIterationsInput) := by
  intro context c t position log h
  rw [eval_loop] at h
  obtain ⟨exit, first, second, hrun, hclose, -, -⟩ := evalLoop_returns h
  cases exit with
  | stopped status =>
    cases hclose
    exact .of_same rfl rfl
  | completed local' p label =>
    simp only [closeLoop, except_bind_eq_ok] at hclose
    obtain ⟨c', hpromoted, hc⟩ := hclose
    cases hc
    have hlocal := (runIterations_framed hbody hrun).mono fun path hiterated => by
      obtain ⟨index, c', hiterates, hwrites⟩ := hiterated
      exact (Writes.inner (.loop hiterates) hwrites : engine.Writes
        (.loop group body untilGuard maxIterations maxIterationsInput) context t path)
    have hframed := promoted_framed hpromoted
      (hlocal.congr rfl (fun _ hin => hin) rfl (fun _ hin => hin))
    exact hframed.congr rfl (fun _ hin => hin) rfl (fun _ hin => hin)

theorem parallel_framed {group : Group} {branches : List GraphNode} {join : Join}
    (hbranches : ∀ branch ∈ branches, engine.VisitsFramed branch) :
    engine.VisitsFramed (.par group branches join) := by
  intro context c t position log h
  rw [eval_par] at h
  obtain ⟨probes, plog, hprobes, hrun⟩ := evalParallel_returns h
  generalize hstatus : Status.continuing position = status at hrun
  cases hrun with
  | opened => cases hstatus
  | unreachable dlog hfew hsettled hlog =>
    exact .of_same (recordParallelControl_state ..) (recordParallelControl_localWrites ..)
  | reached latestPosition joined wlog first last hmany hposition hjoin hfirst hlast =>
    subst hposition
    obtain ⟨runs, hruns, hcontexts, -⟩ := joinParallelWinners_returns hjoin
    have hwinners : ∀ winner ∈ runs.map fun run => (run.branch.node, run.context),
        Framed (engine.Writes (.par group branches join) context t) context.clearWrites
          winner.2 := by
      intro winner hwinner
      obtain ⟨run, hrun, rfl⟩ := List.mem_map.mp hwinner
      obtain ⟨index, hindex, hbranch, hreturns⟩ := forall₂_mem_right hruns hrun
      obtain ⟨⟨index, p⟩, hwon, rfl⟩ := List.mem_map.mp hindex
      rw [List.getElem?_map, Option.map_eq_some_iff] at hbranch
      obtain ⟨node, hnode, hchild⟩ := hbranch
      rw [← hchild] at hreturns
      refine ((hbranches node (List.mem_of_getElem? hnode)) hreturns).mono fun path hwrites => ?_
      exact .inner (.par hprobes hmany hwon hnode) hwrites
    have hjoined := joinContexts_framed hwinners hcontexts
    constructor
    · intro path hnone hkeyed
      rw [joinedContext, recordParallelControl_state]
      exact hjoined.state path hnone hkeyed
    · intro path hin
      rw [joinedContext, recordParallelControl_localWrites] at hin
      rcases OrdSet.mem_extend.mp hin with hold | hnew
      · exact ⟨path, .inl hold, FieldPath.contains_refl path⟩
      · obtain ⟨written, hwritten, hcontains⟩ := hjoined.recorded_clear hnew
        exact ⟨written, .inr hwritten, hcontains⟩

theorem map_framed {group : Group} {body : GraphNode} {overItems : DataSelector}
    {maxItems : PositiveInteger} : engine.VisitsFramed (.map group body overItems maxItems) := by
  intro context c t position log h
  have h' := h
  rw [eval_map] at h'
  obtain ⟨selected, items, hselected, harray, hcase⟩ := evalMap_returns h'
  rcases hcase with ⟨-, -, rfl, -⟩ | ⟨hfit, probes, plog, hprobes, hrun⟩
  · exact .of_same rfl rfl
  · generalize hstatus : Status.continuing position = status at hrun
    cases hrun with
    | terminal => exact .of_same rfl rfl
    | pending => cases hstatus
    | finished results rlog dlog c hnone hresults hsettled hclose hlog =>
      have hruns : ∃ rlog, (evaluateMapItems (engine.eval body) context (enterGroup group.name t)
          items).Returns results rlog := by
        rcases hresults with ⟨hmode, rfl, -⟩ | ⟨-, hdecide⟩
        · rw [← hmode] at hprobes
          exact ⟨plog, hprobes⟩
        · exact ⟨rlog, hdecide⟩
      obtain ⟨rlog, hruns⟩ := hruns
      have hitems : selectData overItems context.state t.item = .ok (.array items) := by
        cases selected <;> cases harray
        exact hselected
      refine (closeMap_framed hclose).mono fun path hpath => ?_
      rw [hstatus] at h
      exact .collected h hitems hfit hruns hpath.1 hpath.2

/-- **A visit writes only what its descendants wrote.** -/
theorem visits_framed (node : GraphNode) : engine.VisitsFramed node := by
  induction node using GraphNode.induct with
  | step node =>
    intro context c t position log h
    refine (evalExecutable_framed h).mono ?_
    rintro path ⟨hsucceeds, binding, hbinding, rfl⟩
    exact .step hsucceeds hbinding
  | verifier node =>
    intro context c t position log h
    refine (evalExecutable_framed h).mono ?_
    rintro path ⟨hsucceeds, binding, hbinding, rfl⟩
    exact .verifier hsucceeds hbinding
  | seq group children ih => exact sequence_framed ih
  | choice group branches otherwise ihbranches ihotherwise =>
    exact choice_framed ihbranches ihotherwise
  | par group branches join ih => exact parallel_framed ih
  | loop group body untilGuard maxIterations maxIterationsInput ih => exact loop_framed ih
  | map group body overItems maxItems ih => exact map_framed
  | succeed node =>
    intro context c t position log h
    obtain ⟨output, -, hstatus, -⟩ := evalSucceed_returns h
    cases hstatus
  | fail node =>
    intro context c t position log h
    obtain ⟨hstatus, -⟩ := evalFail_returns h
    cases hstatus

/-! ## The frame of a group -/

/-- A group that continues leaves every path alone that meets none of its promoted paths. -/
theorem group_apart {node : GraphNode} {group : Group} (hgroup : node.group? = some group)
    {context c : Context} {t : Traversal} {position : HistoryPosition} {log : List Effect}
    (h : (engine.eval node context t).Returns (.continuing position, c) log) {path : FieldPath}
    (hapart : ∀ promoted ∈ group.promotedStatePaths, ¬ promoted.Meets path) :
    select c.state path = select context.state path := by
  cases node with
  | step node => cases hgroup
  | verifier node => cases hgroup
  | succeed node => cases hgroup
  | fail node => cases hgroup
  | seq group children =>
    cases hgroup
    rw [eval_seq] at h
    obtain ⟨local', first, second, -, hclose, -, -⟩ := evalSequence_returns h
    exact promoted_apart hclose hapart
  | choice group branches otherwise =>
    cases hgroup
    obtain ⟨node, local', first, second, -, -, hclose, -, -⟩ := eval_choice_returns engine h
    simp only [closeChoice, except_bind_eq_ok] at hclose
    obtain ⟨c', hpromoted, hc⟩ := hclose
    cases hc
    exact promoted_apart hpromoted hapart
  | loop group body untilGuard maxIterations maxIterationsInput =>
    cases hgroup
    rw [eval_loop] at h
    obtain ⟨exit, first, second, -, hclose, -, -⟩ := evalLoop_returns h
    cases exit with
    | stopped status =>
      cases hclose
      rfl
    | completed local' p label =>
      simp only [closeLoop, except_bind_eq_ok] at hclose
      obtain ⟨c', hpromoted, hc⟩ := hclose
      cases hc
      exact promoted_apart hpromoted hapart
  | par group branches join =>
    cases hgroup
    rw [eval_par] at h
    obtain ⟨probes, plog, -, hrun⟩ := evalParallel_returns h
    generalize hstatus : Status.continuing position = status at hrun
    cases hrun with
    | opened => cases hstatus
    | unreachable dlog hfew hsettled hlog => rw [recordParallelControl_state]
    | reached latestPosition joined wlog first last hmany hposition hjoin hfirst hlast =>
      obtain ⟨runs, -, hcontexts, -⟩ := joinParallelWinners_returns hjoin
      rw [joinedContext, recordParallelControl_state]
      exact joinContexts_apart hcontexts hapart
  | map group body overItems maxItems =>
    cases hgroup
    rw [eval_map] at h
    obtain ⟨selected, items, -, -, hcase⟩ := evalMap_returns h
    rcases hcase with ⟨-, -, rfl, -⟩ | ⟨-, probes, plog, -, hrun⟩
    · rfl
    · generalize hstatus : Status.continuing position = status at hrun
      cases hrun with
      | terminal => rfl
      | pending => cases hstatus
      | finished results rlog dlog c hnone hresults hsettled hclose hlog =>
        refine (closeMap_select hclose path).2 fun other hother => ?_
        exact hapart other (List.mem_filter.mp hother).1

/-- **The frame of a promotion.** A group that continues leaves the parent's state alone at every
path that is neither at, above nor below one of its promoted paths, and at every promoted path that
is neither at, above nor below one that the visit wrote. -/
theorem promotion_frame {node : GraphNode} {group : Group} (hgroup : node.group? = some group)
    {context c : Context} {t : Traversal} {position : HistoryPosition} {log : List Effect}
    (h : (engine.eval node context t).Returns (.continuing position, c) log) :
    (∀ path, (∀ promoted ∈ group.promotedStatePaths, ¬ promoted.Meets path) →
      select c.state path = select context.state path) ∧
    (context.state.keyed = true → ∀ path ∈ group.promotedStatePaths,
      (∀ written, engine.Writes node context t written → ¬ written.Meets path) →
        select c.state path = select context.state path) := by
  refine ⟨fun path hapart => group_apart hgroup h hapart, fun hkeyed path _ hnone => ?_⟩
  exact (visits_framed node h).state path hnone fun value hvalue =>
    keyed_selectSegments hkeyed hvalue

end Engine

namespace Sample

/-- A list of strings to map over, and another list. -/
def bothType : PayloadType :=
  .record [(⟨"i", validateIdentifier_i⟩, true, .array .string),
    (⟨"x", validateIdentifier_x⟩, true, .array .string)]

/-- A map whose step writes one string for each item to `x`. -/
def writingMap : GraphNode :=
  .map ⟨m, bothType, [x]⟩
    (.step ⟨a, worker, none, .null, outputType .string, [], [⟨⟨a, .out, v⟩, x⟩], none,
      PositiveInteger.one⟩)
    (.state items) two

def writing : GraphSpec where
  profile := .full
  initialInput := bothType
  policy := policy
  root := .seq ⟨s, bothType, []⟩ [writingMap, fail f]
  wellFormed := by decide +kernel

def bothLists (list : List Value) : Value :=
  .object [("i", .array list), ("x", .array [.string "old"])]

/-- The lists, and a string that a step writes. -/
def allType : PayloadType :=
  .record [(⟨"i", validateIdentifier_i⟩, true, .array .string),
    (⟨"x", validateIdentifier_x⟩, true, .array .string),
    (⟨"z", validateIdentifier_z⟩, false, .string)]

def writeZ : GraphNode :=
  .step ⟨b, worker, none, .null, outputType .string, [], [⟨⟨b, .out, v⟩, z⟩], none,
    PositiveInteger.one⟩

/-- A map over at most two items whose step writes one string for each to `x`. -/
def mapToX : GraphNode :=
  .map ⟨m, allType, [x]⟩
    (.step ⟨a, worker, none, .null, outputType .string, [], [⟨⟨a, .out, v⟩, x⟩], none,
      PositiveInteger.one⟩)
    (.state items) two

/-- A group that promotes both paths. -/
def bothGroup : Group := ⟨c, allType, [x, z]⟩

def bothNode : GraphNode := .seq bothGroup [writeZ, mapToX]

def both : GraphSpec where
  profile := .full
  initialInput := bothType
  policy := policy
  root := .seq ⟨s, allType, []⟩ [bothNode, fail f]
  wellFormed := by decide +kernel

def threeItems : Value := bothLists [.string "a", .string "b", .string "c"]

/-- The step outside the map has settled. -/
def bothEvents : List RunEvent :=
  [.dispatch [(execution 0, position 1)],
    .settle (execution 0) (position 2) (.verified (.object [("v", .string "new")]) [])]

def bothHistory : List DurableExecution :=
  [attempt 0 b [] 1 (.settled (position 2) (.verified (.object [("v", .string "new")]) []))]

end Sample

open Sample in
/-- A step writes `z`, and then a map overflows, which writes nothing: the group around both keeps
the list at `x`. -/
theorem overflow_keeps :
    Verified outputRegistry both ∧ Reachable .voidsFirst both.root threeItems bothHistory ∧
      ∃ c log, ((engineOf both.root threeItems bothHistory).eval bothNode
          (Context.new threeItems) rootTraversal).Returns (.continuing (position 2), c) log ∧
        select c.state z = .ok (.string "new") ∧
        select c.state x = .ok (.array [.string "old"]) := by
  refine ⟨by decide +kernel, ⟨bothEvents, by set_option maxRecDepth 8000 in decide⟩, ?_⟩
  have hresult : ((engineOf both.root threeItems bothHistory).eval bothNode
      (Context.new threeItems) rootTraversal).result.map
        (fun result => (result.1, select result.2.state z)) =
      .ok (.continuing (position 2), .ok (.string "new")) := by
    set_option maxRecDepth 8000 in decide
  have hafter : ((engineOf both.root threeItems bothHistory).eval writeZ
      (Context.new threeItems).clearWrites rootTraversal).result.map
        (fun result => selectData (.state items) result.2.state none) =
      .ok (.ok (.array [.string "a", .string "b", .string "c"])) := by
    set_option maxRecDepth 8000 in decide
  cases hrun : (engineOf both.root threeItems bothHistory).eval bothNode (Context.new threeItems)
      rootTraversal with
  | mk log result =>
    rw [hrun] at hresult
    cases result with
    | error e => cases hresult
    | ok result =>
      obtain ⟨status, c⟩ := result
      simp only [Except.map, Except.ok.injEq, Prod.mk.injEq] at hresult
      obtain ⟨rfl, hz⟩ := hresult
      refine ⟨c, log, rfl, hz, ?_⟩
      have hkeyed : threeItems.keyed = true := by decide
      rw [(Engine.promotion_frame (rfl : bothNode.group? = some bothGroup) hrun).2 hkeyed
        x List.mem_cons_self ?_]
      · decide
      · intro written hwrites
        cases hwrites with
        | inner hevaluates hwrites =>
          cases hevaluates with
          | seq hreaches =>
            cases hreaches with
            | here =>
              cases hwrites with
              | step hsucceeds hbinding =>
                cases List.mem_singleton.mp hbinding
                decide
              | inner hevaluates => cases hevaluates
            | later hfirst hrest =>
              rw [hfirst] at hafter
              have hitems := Except.ok.inj hafter
              cases hrest with
              | later _ hrest => cases hrest
              | here =>
                -- the map has more items than it may evaluate
                cases hwrites with
                | collected hreturns hselected hfit hresults hpath hwrote =>
                  cases hitems.symm.trans hselected
                  exact absurd hfit (by decide)
                | inner hevaluates hwrites =>
                  cases hevaluates with
                  | map hselected hfit hitem =>
                    cases hitems.symm.trans hselected
                    exact absurd hfit (by decide)

open Sample in
/-- Over no items at all, with nothing executed yet, the map replaces the list at `x`. -/
theorem empty_map_writes :
    Verified outputRegistry writing ∧ Reachable .voidsFirst writing.root (bothLists []) [] ∧
      writingMap ∈ writing.root.descendants ∧
      Engine.new (runInput (bothLists []) []) writing.root .nativeV2 =
        .ok (engineOf writing.root (bothLists []) []) ∧
      select (bothLists []) x = .ok (.array [.string "old"]) ∧
      ((engineOf writing.root (bothLists []) []).eval writingMap (Context.new (bothLists []))
          rootTraversal).result.map (fun result => (result.1, select result.2.state x)) =
        .ok (.continuing HistoryPosition.zero, .ok (.array [])) := by
  have hnode : writingMap ∈ writing.root.descendants := .tail _ (.head _)
  refine ⟨?_, ⟨[], ?_⟩, hnode, rfl, ?_, ?_⟩ <;> decide +kernel

end Zeroshot
