import Zeroshot.Reducer.Paths
import Zeroshot.Reducer.Positions

set_option autoImplicit false

/-!
# Written paths at entry are not read

An evaluation adds to the written paths of the context it starts from but never reads them: every
group starts its children from a context without written paths. So evaluating from a context and
from the same context without its written paths logs the same effects and returns the same status,
state, controls and channels (`eval_clearWrites`). The reducer relies on this where it evaluates an
item or a branch a second time from a context whose written paths it did not clear.
-/

namespace Zeroshot

open Logged

/-- Equal up to the written paths. -/
def Context.Alike (a b : Context) : Prop := a.clearWrites = b.clearWrites

/-- Results with the same status and alike contexts. -/
def ResultAlike (r r' : Status × Context) : Prop := r.1 = r'.1 ∧ r.2.Alike r'.2

namespace Engine

variable {engine : Engine}

theorem promote_alike (node : NodeName) (paths : List FieldPath) (local' context : Context)
    (t : Traversal) :
    Logged.Alike Context.Alike (engine.promote node paths local' context t)
      (engine.promote node paths local' context.clearWrites t) := by
  refine .bind_same fun optional => ?_
  refine .bind_same fun promoted => ?_
  refine .bind_same fun _ => ?_
  exact .pure rfl

/-! ## Executables -/

theorem applyBindings_clearWrites (mapIndices : List Nat) (bindings : List WriteBinding)
    (context : Context) (writes : OrdSet FieldPath) :
    (applyBindings mapIndices context bindings).map Context.clearWrites =
      (applyBindings mapIndices { context with localWrites := writes } bindings).map
        Context.clearWrites := by
  induction bindings generalizing context writes with
  | nil => rfl
  | cons binding bindings ih =>
    have hvalue : boundChannelValue { context with localWrites := writes } binding mapIndices =
        boundChannelValue context binding mapIndices := rfl
    rw [applyBindings, applyBindings, hvalue]
    cases boundChannelValue context binding mapIndices with
    | error e => rfl
    | ok value =>
      change (setPath context.state binding.target value >>= _).map _ =
        (setPath context.state binding.target value >>= _).map _
      cases setPath context.state binding.target value with
      | error e => rfl
      | ok state => exact ih _ _

theorem setSignals_clearWrites (name : NodeName) (mapIndices : List Nat)
    (signals : OrdMap FieldName EnumLabel) (context : Context) :
    engine.setSignals name mapIndices signals context.clearWrites =
      (engine.setSignals name mapIndices signals context).clearWrites := by
  induction signals generalizing context with
  | nil => rfl
  | cons entry signals ih =>
    obtain ⟨field, label⟩ := entry
    exact ih (engine.setControl name .signal (some field.asStr) label.asStr mapIndices context)

/-- Results that agree once the written paths are dropped. -/
theorem alike_lift {x y : Except ReducerError (Context × Bool)}
    (h : x.map (fun r => (r.1.clearWrites, r.2)) = y.map fun r => (r.1.clearWrites, r.2)) :
    Logged.Alike (fun r r' => r.1.Alike r'.1 ∧ r.2 = r'.2) (lift x : Walk _) (lift y) := by
  cases x <;> cases y <;> simp only [Except.map, Except.error.injEq, Except.ok.injEq,
    Prod.mk.injEq, reduceCtorEq] at h
  · exact ⟨rfl, h⟩
  · exact ⟨rfl, h⟩

theorem applyOutcome_clearWrites (spec : ExecutableSpec) (mapIndices : List Nat)
    (outcome : WorkerOutcome) (context : Context) :
    (engine.applyOutcome spec mapIndices outcome context).map (fun r => (r.1.clearWrites, r.2)) =
      (engine.applyOutcome spec mapIndices outcome context.clearWrites).map
        fun r => (r.1.clearWrites, r.2) := by
  have hwrites : ∀ (context : Context) (channel : Channels),
      (applyWrites context spec.name channel spec.writeBindings mapIndices >>= fun applied =>
          Except.ok (ε := ReducerError) (applied, true)).map (fun r => (r.1.clearWrites, r.2)) =
        (applyWrites context.clearWrites spec.name channel spec.writeBindings mapIndices >>=
          fun applied => Except.ok (applied, true)).map fun r => (r.1.clearWrites, r.2) := by
    intro context channel
    have happlied := applyBindings_clearWrites mapIndices spec.writeBindings
      { context with channels := OrdMap.insert ⟨spec.name, mapIndices⟩ channel context.channels } []
    change (applyWrites context spec.name channel spec.writeBindings mapIndices).map _ =
      (applyWrites context.clearWrites spec.name channel spec.writeBindings mapIndices).map _
      at happlied
    have hmap : ∀ x : Except ReducerError Context,
        (x >>= fun applied => Except.ok (applied, true)).map (fun r => (r.1.clearWrites, r.2)) =
          (x.map Context.clearWrites).map fun applied => (applied, true) := by
      intro x
      cases x <;> rfl
    rw [hmap, hmap, happlied]
  cases outcome with
  | error code => rfl
  | verified output =>
    simp only [applyOutcome]
    split
    · rfl
    · exact hwrites _ _
  | verifier output signals diagnostic =>
    simp only [applyOutcome]
    split
    · rw [setSignals_clearWrites]
      exact hwrites _ _
    · rfl

theorem evalExecutable_clearWrites (spec : ExecutableSpec) (context : Context) (t : Traversal) :
    Logged.Alike ResultAlike (engine.evalExecutable spec context t)
      (engine.evalExecutable spec context.clearWrites t) := by
  refine @Alike.bind_same _ _ _ _ _ _ (lift (engine.resolveVisit spec context t.mapIndices)) _ _
    fun resolution => ?_
  cases resolution with
  | exhausted => exact .pure ⟨rfl, rfl⟩
  | ready visit =>
    refine @Alike.bind_same _ _ _ _ _ _
      (lift (bindPayload spec.inputBindings context.state t.item)) _ _ fun input => ?_
    dsimp only
    split
    · exact ⟨rfl, rfl⟩
    refine .bind_same fun _ => ?_
    split
    · refine .bind_same fun _ => ?_
      exact .pure ⟨rfl, rfl⟩
    · unfold finishExistingExecution
      split
      · exact .pure ⟨rfl, rfl⟩
      split
      · refine .bind_same fun _ => ?_
        exact .pure ⟨rfl, rfl⟩
      · refine (alike_lift (applyOutcome_clearWrites spec t.mapIndices _
          (markVisit spec.name t.mapIndices visit.number context))).bind fun r r' hr => ?_
        obtain ⟨hcontext, hflag⟩ := hr
        have hstate : r.1.clearWrites.state = r'.1.clearWrites.state :=
          congrArg Context.state hcontext
        change r.1.state = r'.1.state at hstate
        have hwrites : promoteWrites spec r'.1 t = promoteWrites spec r.1 t := by
          simp only [promoteWrites, hstate]
        rw [← hflag, hwrites]
        split
        · refine .bind_same fun _ => ?_
          refine .bind_same fun _ => ?_
          exact .pure ⟨rfl, hcontext⟩
        · refine .bind_same fun _ => ?_
          exact .pure ⟨rfl, hcontext⟩

/-! ## Groups -/

theorem evalSequence_clearWrites (group : Group) (children : List Evaluator) (context : Context)
    (t : Traversal) :
    Logged.Alike ResultAlike (engine.evalSequence group children context t)
      (engine.evalSequence group children context.clearWrites t) := by
  refine .bind_same fun result => ?_
  obtain ⟨status, local'⟩ := result
  cases status with
  | continuing p =>
    refine (promote_alike _ _ _ _ _).bind fun c c' hc => ?_
    refine .bind_same fun _ => ?_
    exact .pure ⟨rfl, hc⟩
  | pending => exact .pure ⟨rfl, rfl⟩
  | terminal p r => exact .pure ⟨rfl, rfl⟩

theorem mergeRuntimeFacts_alike {local' c c' : Context} (h : c.Alike c') :
    (mergeRuntimeFacts local' c).Alike (mergeRuntimeFacts local' c') := by
  obtain ⟨s, k, h₁, w⟩ := c
  obtain ⟨s', k', h₁', w'⟩ := c'
  cases h
  rfl

theorem evalChoice_clearWrites (group : Group) (branches : List (Guard × Evaluator))
    (otherwise : Option Evaluator) (context : Context) (t : Traversal) :
    Logged.Alike ResultAlike (engine.evalChoice group branches otherwise context t)
      (engine.evalChoice group branches otherwise context.clearWrites t) := by
  have hclear : context.clearWrites.clearWrites = context.clearWrites := rfl
  unfold evalChoice
  rw [hclear]
  cases engine.selectBranch context.clearWrites t.mapIndices branches otherwise with
  | none => exact ⟨rfl, rfl⟩
  | some selected =>
    refine .bind_same fun result => ?_
    obtain ⟨status, local'⟩ := result
    cases status with
    | continuing p =>
      refine (promote_alike _ _ _ _ _).bind fun c c' hc => ?_
      refine .bind_same fun _ => ?_
      exact .pure ⟨rfl, mergeRuntimeFacts_alike hc⟩
    | pending => exact .pure ⟨rfl, rfl⟩
    | terminal p r => exact .pure ⟨rfl, rfl⟩

theorem evalLoop_clearWrites (group : Group) (body : Child) (untilGuard : Option Guard)
    (maxIterations : PositiveInteger) (context : Context) (t : Traversal) :
    Logged.Alike ResultAlike (engine.evalLoop group body untilGuard maxIterations context t)
      (engine.evalLoop group body untilGuard maxIterations context.clearWrites t) := by
  -- There is a first iteration, and it starts without written paths.
  obtain ⟨n, hn⟩ := Nat.exists_eq_succ_of_ne_zero maxIterations.positive.ne'
  unfold evalLoop
  rw [hn]
  refine .bind_same fun exit => ?_
  cases exit with
  | stopped status => exact .pure ⟨rfl, rfl⟩
  | completed local' position label =>
    refine (promote_alike _ _ _ _ _).bind fun c c' hc => ?_
    refine .bind_same fun _ => ?_
    exact .pure ⟨rfl, hc⟩

theorem joinParallelWinners_clearWrites (group : Group) (branches : List Child)
    (context : Context) (t : Traversal) (winners : List Nat) (joined : Context) :
    joinParallelWinners group branches context.clearWrites t winners joined =
      joinParallelWinners group branches context t winners joined := by
  induction winners generalizing joined with
  | nil => rfl
  | cons index winners ih =>
    rw [joinParallelWinners, joinParallelWinners]
    simp only [ih]
    rfl

theorem evalParallel_clearWrites (group : Group) (join : Join) (branches : List Child)
    (context : Context) (t : Traversal)
    (hbranches : ∀ branch ∈ branches,
      Logged.Alike ResultAlike (branch.run context t) (branch.run context.clearWrites t)) :
    Logged.Alike ResultAlike (engine.evalParallel group join branches context t)
      (engine.evalParallel group join branches context.clearWrites t) := by
  refine .bind_same fun probes => ?_
  dsimp only
  split
  · unfold unreachedParallelJoin
    split
    · cases t.mode with
      | decide =>
        refine (Alike.forEach hbranches).bind fun _ _ _ => ?_
        exact .pure ⟨rfl, rfl⟩
      | probe => exact .pure ⟨rfl, rfl⟩
    · refine .bind_same fun _ => ?_
      refine .pure ⟨rfl, ?_⟩
      cases join <;> rfl
  · rw [joinParallelWinners_clearWrites]
    refine .bind_same fun joined => ?_
    refine .bind_same fun _ => ?_
    refine .bind_same fun _ => ?_
    split
    · refine .bind_same fun _ => ?_
      refine .bind_same fun _ => ?_
      refine .pure ⟨rfl, ?_⟩
      cases join <;> rfl
    · refine .bind_same fun _ => ?_
      refine .pure ⟨rfl, ?_⟩
      cases join <;> rfl

/-! ## Maps -/

/-- A path that was written is promoted. -/
theorem promotedWritePaths_of_mem {writes : OrdSet FieldPath} {path : FieldPath}
    (h : path ∈ writes) : (promotedWritePaths writes [path]).isEmpty = false := by
  have htarget : path ∈ [path] := List.mem_singleton_self path
  obtain ⟨_, hin, -⟩ := exists_writeCandidate h htarget (FieldPath.meets_refl path)
  obtain ⟨_, hmember, -⟩ := exists_promotedWritePath hin
  rw [List.isEmpty_eq_false_iff]
  exact List.ne_nil_of_mem hmember

theorem promotePaths_congr {first second : Context} (hstate : first.state = second.state)
    {optional : OrdSet FieldPath} {paths : List FieldPath}
    (hpaths : ∀ path ∈ paths, path ∈ first.localWrites ∧ path ∈ second.localWrites)
    (parent : Value) :
    promotePaths first optional parent paths = promotePaths second optional parent paths := by
  induction paths generalizing parent with
  | nil => rfl
  | cons path paths ih =>
    have hvalue : promotedValue first.state path first.localWrites (OrdSet.contains optional path) =
        promotedValue second.state path second.localWrites (OrdSet.contains optional path) := by
      obtain ⟨hfirst, hsecond⟩ := hpaths path List.mem_cons_self
      rw [promotedValue, promotedValue, promotedWritePaths_of_mem hfirst,
        promotedWritePaths_of_mem hsecond, hstate]
    rw [promotePaths, promotePaths, hvalue]
    simp only [ih fun path hpath => hpaths path (List.mem_cons_of_mem _ hpath)]

/-- Collected contexts that differ in the written paths only, all of which were written. -/
def CollectedAlike (r r' : Context × List FieldPath) : Prop :=
  r.1.Alike r'.1 ∧ r.2 = r'.2 ∧ ∀ path ∈ r.2, path ∈ r.1.localWrites ∧ path ∈ r'.1.localWrites

theorem collectItems_mem {items : List Context} {paths : List FieldPath} {c local' : Context}
    {collected : List FieldPath} (h : collectItems items c paths = .ok (local', collected)) :
    (∀ path ∈ c.localWrites, path ∈ local'.localWrites) ∧
      ∀ path ∈ collected, path ∈ local'.localWrites := by
  induction paths generalizing c local' collected with
  | nil =>
    cases h
    exact ⟨fun _ h => h, fun _ h => nomatch h⟩
  | cons path paths ih =>
    rw [collectItems] at h
    split at h
    · exact ih h
    · simp only [except_bind_eq_ok] at h
      obtain ⟨values, -, state, -, ⟨rest, restCollected⟩, hrest, hr⟩ := h
      cases hr
      obtain ⟨hkeep, hcollected⟩ := ih hrest
      refine ⟨fun p hp => hkeep p (OrdSet.mem_insert.mpr (.inr hp)), ?_⟩
      intro p hp
      rcases List.mem_cons.mp hp with rfl | hp
      · exact hkeep _ (OrdSet.mem_insert.mpr (.inl rfl))
      · exact hcollected p hp

theorem collectItems_alike (items : List Context) (paths : List FieldPath) (c : Context)
    (writes : OrdSet FieldPath) :
    Logged.Alike CollectedAlike (lift (collectItems items c paths) : Walk _)
      (lift (collectItems items { c with localWrites := writes } paths)) := by
  have hsame : ∀ (paths : List FieldPath) (c : Context) (writes : OrdSet FieldPath),
      (collectItems items c paths).map (fun r => (r.1.clearWrites, r.2)) =
        (collectItems items { c with localWrites := writes } paths).map
          fun r => (r.1.clearWrites, r.2) := by
    intro paths
    induction paths with
    | nil => exact fun _ _ => rfl
    | cons path paths ih =>
      intro c writes
      rw [collectItems, collectItems]
      split
      · exact ih c writes
      cases collectValues path items with
      | error e => rfl
      | ok values =>
        change (setPath c.state path (.array values) >>= _).map _ =
          (setPath c.state path (.array values) >>= _).map _
        cases setPath c.state path (.array values) with
        | error e => rfl
        | ok state =>
          have hmap : ∀ x : Except ReducerError (Context × List FieldPath),
              (x >>= fun r => Except.ok (r.1, path :: r.2)).map (fun r => (r.1.clearWrites, r.2)) =
                (x.map fun r => (r.1.clearWrites, r.2)).map fun r => (r.1, path :: r.2) := by
            intro x
            cases x <;> rfl
          have hrest := ih { c with state, localWrites := OrdSet.insert path c.localWrites }
            (OrdSet.insert path writes)
          exact (hmap _).trans ((congrArg _ hrest).trans (hmap _).symm)
  have hmap := hsame paths c writes
  cases hleft : collectItems items c paths with
  | error e =>
    cases hright : collectItems items { c with localWrites := writes } paths with
    | error e' =>
      rw [hleft, hright] at hmap
      cases hmap
      exact ⟨rfl, rfl⟩
    | ok r' =>
      rw [hleft, hright] at hmap
      cases hmap
  | ok r =>
    cases hright : collectItems items { c with localWrites := writes } paths with
    | error e' =>
      rw [hleft, hright] at hmap
      cases hmap
    | ok r' =>
      rw [hleft, hright] at hmap
      obtain ⟨hcontext, hpaths⟩ := Prod.mk.inj (Except.ok.inj hmap)
      refine ⟨rfl, hcontext, hpaths, fun path hpath => ⟨(collectItems_mem hleft).2 path hpath, ?_⟩⟩
      exact (collectItems_mem hright).2 path (hpaths ▸ hpath)

theorem mergeItems_alike {names : List NodeName} {results : List MapItemResult} {c c' : Context}
    (h : c.Alike c') : (mergeItems names results c).Alike (mergeItems names results c') := by
  induction results generalizing c c' with
  | nil => exact h
  | cons result results ih =>
    refine ih ?_
    obtain ⟨s, k, h₁, w⟩ := c
    obtain ⟨s', k', h₁', w'⟩ := c'
    cases h
    rfl

theorem finishMap_clearWrites (group : Group) (body : Child) (results : List MapItemResult)
    (context : Context) (t : Traversal) :
    Logged.Alike ResultAlike (engine.finishMap group body results context t)
      (engine.finishMap group body results context.clearWrites t) := by
  refine (collectItems_alike _ _ context []).bind fun r r' hr => ?_
  obtain ⟨local', collected⟩ := r
  obtain ⟨local₁', collected'⟩ := r'
  obtain ⟨hcontext, rfl, hpaths⟩ := hr
  have hstate : local'.clearWrites.state = local₁'.clearWrites.state :=
    congrArg Context.state hcontext
  have hcontrols : local'.clearWrites.controls = local₁'.clearWrites.controls :=
    congrArg Context.controls hcontext
  have hchannels : local'.clearWrites.channels = local₁'.clearWrites.channels :=
    congrArg Context.channels hcontext
  have hpromote : Logged.Alike Context.Alike
      (engine.promote group.name collected
        (engine.setGroupControl group.name "overflow" "ok" t.mapIndices local') context t)
      (engine.promote group.name collected
        (engine.setGroupControl group.name "overflow" "ok" t.mapIndices local₁')
        context.clearWrites t) := by
    refine .bind_same fun optional => ?_
    rw [@promotePaths_congr
      (engine.setGroupControl group.name "overflow" "ok" t.mapIndices local')
      (engine.setGroupControl group.name "overflow" "ok" t.mapIndices local₁') hstate optional
      collected hpaths]
    refine .bind_same fun promoted => ?_
    refine .bind_same fun _ => ?_
    refine .pure ?_
    change local'.controls = local₁'.controls at hcontrols
    change local'.channels = local₁'.channels at hchannels
    simp only [Context.Alike, mergeRuntimeFacts, setGroupControl, setControl, hcontrols, hchannels]
    rfl
  refine hpromote.bind fun c c' hc => ?_
  refine .bind_same fun _ => ?_
  exact .pure ⟨rfl, mergeItems_alike hc⟩

theorem evalMap_clearWrites (group : Group) (overItems : DataSelector) (maxItems : PositiveInteger)
    (body : Child) (context : Context) (t : Traversal)
    (hbody : ∀ t, Logged.Alike ResultAlike (body.run context t) (body.run context.clearWrites t)) :
    Logged.Alike ResultAlike (engine.evalMap group overItems maxItems body context t)
      (engine.evalMap group overItems maxItems body context.clearWrites t) := by
  have hsettle : ∀ results, Logged.Alike ResultAlike (engine.settleMap group body results context t)
      (engine.settleMap group body results context.clearWrites t) := by
    intro results
    unfold settleMap
    split
    · exact .pure ⟨rfl, rfl⟩
    · exact finishMap_clearWrites group body results context t
  refine @Alike.bind_same _ _ _ _ _ _ (lift (selectData overItems context.state t.item)) _ _
    fun selected => ?_
  cases selected.asArray with
  | none => exact ⟨rfl, rfl⟩
  | some items =>
    dsimp only
    split
    · refine .bind_same fun _ => ?_
      exact .pure ⟨rfl, rfl⟩
    refine .bind_same fun probes => ?_
    cases earliestTerminal 0 probes with
    | some found =>
      obtain ⟨index, terminal⟩ := found
      dsimp only [finishTerminalMapItem]
      cases items[index]? with
      | none => exact ⟨rfl, rfl⟩
      | some item =>
        cases t.mode with
        | decide =>
          refine (hbody _).bind fun r r' hr => ?_
          obtain ⟨status, c⟩ := r
          obtain ⟨status', c'⟩ := r'
          obtain ⟨rfl, -⟩ := hr
          refine .bind_same fun _ => ?_
          refine .bind_same fun _ => ?_
          refine .bind_same fun _ => ?_
          exact .pure ⟨rfl, rfl⟩
        | probe =>
          refine .bind_same fun _ => ?_
          refine .bind_same fun _ => ?_
          refine .bind_same fun _ => ?_
          exact .pure ⟨rfl, rfl⟩
    | none =>
      cases t.mode with
      | probe => exact hsettle probes
      | decide =>
        refine .bind_same fun results => ?_
        exact hsettle results

/-! ## Nodes -/

/-- **The written paths at entry are not read.** -/
theorem eval_clearWrites (node : GraphNode) : ∀ (context : Context) (t : Traversal),
    Logged.Alike ResultAlike (engine.eval node context t)
      (engine.eval node context.clearWrites t) := by
  induction node using GraphNode.induct with
  | step node => exact fun context t => evalExecutable_clearWrites _ context t
  | verifier node => exact fun context t => evalExecutable_clearWrites _ context t
  | seq group children ih =>
    intro context t
    rw [eval]
    exact evalSequence_clearWrites group _ context t
  | choice group branches otherwise ihbranches ihotherwise =>
    intro context t
    rw [eval]
    exact evalChoice_clearWrites group _ _ context t
  | par group branches join ih =>
    intro context t
    rw [eval_par, eval_par]
    refine evalParallel_clearWrites group join _ context _ fun branch hbranch => ?_
    obtain ⟨node, hnode, rfl⟩ := List.mem_map.mp hbranch
    exact ih node hnode context _
  | loop group body untilGuard maxIterations maxIterationsInput ih =>
    intro context t
    rw [eval]
    exact evalLoop_clearWrites group _ untilGuard maxIterations context t
  | map group body overItems maxItems ih =>
    intro context t
    rw [eval_map, eval_map]
    exact evalMap_clearWrites group overItems maxItems _ context _ fun t => ih context t
  | succeed node =>
    intro context t
    refine @Alike.bind_same _ _ _ _ _ _
      (lift (bindPayload node.bindings context.state t.item)) _ _ fun output => ?_
    exact .pure ⟨rfl, rfl⟩
  | fail node => exact fun context t => .pure ⟨rfl, rfl⟩

end Engine

end Zeroshot
