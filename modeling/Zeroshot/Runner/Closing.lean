import Zeroshot.Runner.Custody

set_option autoImplicit false

/-!
# Closing a run

The steps of `close_run` keep the custody of the sessions, and once it has returned there is no
party left for that run.

* `Inv.stepClose`, `inv_reachable`: the invariant holds in every reachable state;
* `step_entryStep`: how a step changes the entry of a key;
* **`closeRun_leaves_no_session`**: what a returned `close_run` guarantees.
-/

namespace Zeroshot.Runner

open Machine Ledger

/-! ## Steps of `close_run` -/

/-- The conditions under which the call of `close_run` for `run` may go on to `phase` while the
sessions become `sessions`. -/
structure CloseMoves (s : NodeRunner) (run : RunId) (phase : CloseRun)
    (sessions : List ManagedSession) : Prop where
  held : ∀ x ∈ phase.held, s.SessionOf x run
  inCloseOf : ∀ x, phase.inClose = some x → s.SessionOf x run
  bindings : ∀ x ∈ phase.bindings, s.SessionOf x run
  released : ∀ x ∈ (s.closes run).held, x ∈ phase.held ∨
    ∀ managed, sessions[x]? = some managed → managed.closed = true
  inClose : ∀ x, (s.closes run).inClose = some x → phase.inClose = some x ∨
    ∀ managed, sessions[x]? = some managed → managed.closeReturned = true
  closed : phase ≠ .idle → run ∈ s.closedRuns
  awaited : ∀ (i : Nat) (t : Task), s.tasks[i]? = some t → t.phase ≠ .finished →
    t.key.runId = run → phase ≠ .idle → i ∈ phase.awaited
  cancelled : ∀ (i : Nat) (t : Task), s.tasks[i]? = some t → t.phase ≠ .finished →
    t.key.runId = run → phase ≠ .idle → i ∈ phase.uncancelled ∨ t.cancel = true
  swept : phase.swept = true → s.Swept run

section

variable {s : NodeRunner} {run : RunId} {phase : CloseRun} {sessions : List ManagedSession}

theorem closeGoto_self (s : NodeRunner) (run : RunId) (phase : CloseRun) :
    (s.closeGoto run phase).closes run = phase :=
  Function.update_self ..

theorem closeGoto_ne {other : RunId} (h : other ≠ run) (s : NodeRunner) (phase : CloseRun) :
    (s.closeGoto run phase).closes other = s.closes other :=
  Function.update_of_ne h ..

theorem Inv.closeMove (h : Inv s)
    (hadv : Advanced s.sessions sessions phase.inClose fun _ _ => False)
    (hmoves : CloseMoves s run phase sessions) :
    Inv { s.closeGoto run phase with sessions := sessions } where
  calls managed hmem := by
    obtain ⟨x, hx⟩ := List.mem_iff_getElem?.mp hmem
    rcases hadv.before hx with hfalse | ⟨before, hbefore, -, -, -, hcalls, -⟩
    · exact hfalse.elim
    · exact hcalls (h.calls before (List.mem_of_getElem? hbefore))
  owned x managed hx hopen := by
    rcases hadv.before hx with hfalse | ⟨before, hbefore, -, hclosed, -⟩
    · exact hfalse.elim
    rcases h.owned x before hbefore (hclosed hopen) with htask | hentry | ⟨other, hclose⟩
    · exact .inl htask
    · exact .inr (.inl hentry)
    · by_cases hother : other = run
      · subst hother
        rcases hmoves.released x hclose with hheld | hdone
        · exact .inr (.inr ⟨other, (closeGoto_self s other phase).symm ▸ hheld⟩)
        · exact absurd (hdone managed hx) (by simp [hopen])
      · exact .inr (.inr ⟨other, (closeGoto_ne hother s phase).symm ▸ hclose⟩)
  inClose x managed hx hclosed hwait := by
    rcases hadv.before hx with hfalse | ⟨before, hbefore, -, -, hreturned, -, hstarted⟩
    · exact hfalse.elim
    rcases hstarted hclosed with hbclosed | hphase
    · rcases h.inClose x before hbefore hbclosed (hreturned hwait) with htask | ⟨other, hclose⟩
      · exact .inl htask
      · by_cases hother : other = run
        · subst hother
          rcases hmoves.inClose x hclose with hphase | hdone
          · exact .inr ⟨other, (closeGoto_self s other phase).symm ▸ hphase⟩
          · exact absurd (hdone managed hx) (by simp [hwait])
        · exact .inr ⟨other, (closeGoto_ne hother s phase).symm ▸ hclose⟩
    · exact .inr ⟨run, (closeGoto_self s run phase).symm ▸ hphase⟩
  taskSession i t x hi hx := (h.taskSession i t x hi hx).advance hadv
  entrySession key x hmem := (h.entrySession key x hmem).advance hadv
  activeSession key active binding hmem hbinding :=
    (h.activeSession key active binding hmem hbinding).advance hadv
  closeHeld other x hx := by
    change x ∈ ((s.closeGoto run phase).closes other).held at hx
    by_cases hother : other = run
    · subst hother
      rw [closeGoto_self] at hx
      exact (hmoves.held x hx).advance hadv
    · rw [closeGoto_ne hother] at hx
      exact (h.closeHeld other x hx).advance hadv
  closeInClose other x hx := by
    change ((s.closeGoto run phase).closes other).inClose = some x at hx
    by_cases hother : other = run
    · subst hother
      rw [closeGoto_self] at hx
      exact (hmoves.inCloseOf x hx).advance hadv
    · rw [closeGoto_ne hother] at hx
      exact (h.closeInClose other x hx).advance hadv
  closeBindings other x hx := by
    change x ∈ ((s.closeGoto run phase).closes other).bindings at hx
    by_cases hother : other = run
    · subst hother
      rw [closeGoto_self] at hx
      exact (hmoves.bindings x hx).advance hadv
    · rw [closeGoto_ne hother] at hx
      exact (h.closeBindings other x hx).advance hadv
  registered := h.registered
  markerOwner := h.markerOwner
  markerUnique := h.markerUnique
  markerBound := h.markerBound
  closedRun other hor := by
    change (s.closeGoto run phase).closes other ≠ .idle ∨ _ at hor
    by_cases hother : other = run
    · subst hother
      rw [closeGoto_self] at hor
      rcases hor with hbusy | hreturned
      · exact hmoves.closed hbusy
      · exact h.closedRun other (.inr hreturned)
    · rw [closeGoto_ne hother] at hor
      exact h.closedRun other hor
  awaited i t hi hlive hcall := by
    change (s.closeGoto run phase).closes t.key.runId ≠ .idle at hcall
    change i ∈ ((s.closeGoto run phase).closes t.key.runId).awaited
    by_cases hother : t.key.runId = run
    · rw [hother, closeGoto_self] at hcall ⊢
      exact hmoves.awaited i t hi hlive hother hcall
    · rw [closeGoto_ne hother] at hcall ⊢
      exact h.awaited i t hi hlive hcall
  cancelled i t hi hlive hcall := by
    change (s.closeGoto run phase).closes t.key.runId ≠ .idle at hcall
    change i ∈ ((s.closeGoto run phase).closes t.key.runId).uncancelled ∨ _
    by_cases hother : t.key.runId = run
    · rw [hother, closeGoto_self] at hcall ⊢
      exact hmoves.cancelled i t hi hlive hother hcall
    · rw [closeGoto_ne hother] at hcall ⊢
      exact h.cancelled i t hi hlive hcall
  spent key entry hswept hentry := by
    refine h.spent key entry ?_ hentry
    change ((s.closeGoto run phase).closes key.runId).swept = true ∨ _ at hswept
    by_cases hother : key.runId = run
    · rw [hother, closeGoto_self] at hswept
      rw [hother]
      exact hswept.elim hmoves.swept .inr
    · rw [closeGoto_ne hother] at hswept
      exact hswept
  returnedTasks := h.returnedTasks
  returnedSessions managed hmem hrun := by
    obtain ⟨x, hx⟩ := List.mem_iff_getElem?.mp hmem
    rcases hadv.before hx with hfalse | ⟨before, hbefore, hsame, hclosed, hreturned, -⟩
    · exact hfalse.elim
    have hdone := h.returnedSessions before (List.mem_of_getElem? hbefore) (hsame ▸ hrun)
    refine ⟨?_, ?_⟩
    · by_contra hne
      simp [hclosed (by simpa using hne)] at hdone
    · by_contra hne
      simp [hreturned (by simpa using hne)] at hdone

/-- A call under way keeps its targets until they have finished or been cancelled. -/
theorem Inv.closeOn (h : Inv s) (hbusy : s.closes run ≠ .idle)
    (hadv : Advanced s.sessions sessions phase.inClose fun _ _ => False)
    (hheld : ∀ x ∈ phase.held, s.SessionOf x run)
    (hinCloseOf : ∀ x, phase.inClose = some x → s.SessionOf x run)
    (hbindings : ∀ x ∈ phase.bindings, s.SessionOf x run)
    (hreleased : ∀ x ∈ (s.closes run).held, x ∈ phase.held ∨
      ∀ managed, sessions[x]? = some managed → managed.closed = true)
    (hinClose : ∀ x, (s.closes run).inClose = some x → phase.inClose = some x ∨
      ∀ managed, sessions[x]? = some managed → managed.closeReturned = true)
    (hawaited : ∀ (i : Nat) (t : Task), s.tasks[i]? = some t → t.phase ≠ .finished →
      i ∈ (s.closes run).awaited → i ∈ phase.awaited)
    (huncancelled : ∀ (i : Nat) (t : Task), s.tasks[i]? = some t →
      i ∈ (s.closes run).uncancelled → i ∈ phase.uncancelled ∨ t.cancel = true)
    (hswept : phase.swept = (s.closes run).swept) :
    Inv { s.closeGoto run phase with sessions := sessions } := by
  refine h.closeMove hadv
    { held := hheld
      inCloseOf := hinCloseOf
      bindings := hbindings
      released := hreleased
      inClose := hinClose
      closed := fun _ => h.closedRun run (.inl hbusy)
      awaited := ?_
      cancelled := ?_
      swept := fun hphase => .inl (hswept ▸ hphase) }
  · rintro i t hi hlive rfl -
    exact hawaited i t hi hlive (h.awaited i t hi hlive hbusy)
  · rintro i t hi hlive rfl -
    rcases h.cancelled i t hi hlive hbusy with hmem | hcancel
    · exact huncancelled i t hi hmem
    · exact .inr hcancel

/-- `begin_close`: every task of the run that has not finished is a target. -/
theorem Inv.beginClose (h : Inv s) (hidle : s.closes run = .idle) :
    Inv { s.closeGoto run (.cancelling (s.closeTargets run) (s.closeTargets run)) with
      closedRuns := run :: s.closedRuns } := by
  have htarget : ∀ (i : Nat) (t : Task), s.tasks[i]? = some t → t.phase ≠ .finished →
      t.key.runId = run → i ∈ (s.closeTargets run).map ActivityCloseTarget.task := by
    intro i t hi hlive hrun
    obtain ⟨binding, hactive⟩ := h.registered i t hi hlive
    refine List.mem_map.mpr ⟨⟨i, binding⟩, List.mem_map.mpr ⟨(t.key, ⟨i, binding⟩), ?_, rfl⟩, rfl⟩
    exact List.mem_filter.mpr ⟨OrdMap.mem_of_get? hactive, by simp [hrun]⟩
  have hbound : ∀ x ∈ (s.closeTargets run).filterMap ActivityCloseTarget.managed,
      s.SessionOf x run := by
    intro x hx
    obtain ⟨target, htarget, hmanaged⟩ := List.mem_filterMap.mp hx
    obtain ⟨⟨key, active⟩, hmem, rfl⟩ := List.mem_map.mp htarget
    obtain ⟨binding, hbinding, rfl⟩ := Option.map_eq_some_iff.mp hmanaged
    obtain ⟨hactive, hkey⟩ := List.mem_filter.mp hmem
    have hrun : key.runId = run := by simpa using hkey
    rw [← hrun]
    exact h.activeSession key active binding hactive hbinding
  have hlisted : Inv { s with closedRuns := run :: s.closedRuns } :=
    { h with closedRun := fun other hor => List.mem_cons_of_mem _ (h.closedRun other hor) }
  exact hlisted.closeMove (Advanced.refl _)
    { held := by simp [CloseRun.held]
      inCloseOf := by simp [CloseRun.inClose]
      bindings := hbound
      released := by simp [hidle, CloseRun.held]
      inClose := by simp [hidle, CloseRun.inClose]
      closed := fun _ => List.mem_cons_self
      awaited := fun i t hi hlive hrun _ => htarget i t hi hlive hrun
      cancelled := fun i t hi hlive hrun _ => .inl (htarget i t hi hlive hrun)
      swept := by simp [CloseRun.swept] }

theorem loseEntries_get? (s : NodeRunner) (run : RunId) (key : SessionKey) :
    OrdMap.get? (s.loseEntries run).entries key =
      (OrdMap.get? s.entries key).map fun entry => if key.runId = run then .lost else entry := by
  have h := OrdMap.get?_map_values (fun key : SessionKey => decide (key.runId = run)) .lost
    s.entries key
  simp only [decide_eq_true_eq] at h
  exact h

theorem mem_loseEntries {s : NodeRunner} {run : RunId} {key : SessionKey} {x : Nat}
    (h : (key, .live x) ∈ (s.loseEntries run).entries) : (key, .live x) ∈ s.entries := by
  obtain ⟨⟨key', entry⟩, hmem, heq⟩ := List.mem_map.mp h
  dsimp only at heq
  split at heq
  · cases heq
  · cases heq
    exact hmem

theorem mem_entriesToClose {s : NodeRunner} {run : RunId} {x : Nat} :
    x ∈ (s.entriesToClose run).filterMap EntryToClose.managed ↔
      ∃ key : SessionKey, key.runId = run ∧ (key, .live x) ∈ s.entries := by
  unfold NodeRunner.entriesToClose
  simp only [List.mem_filterMap]
  constructor
  · rintro ⟨entry, ⟨⟨key, stored⟩, hmem, hfound⟩, hx⟩
    dsimp only at hfound
    split at hfound
    · next hrun =>
      cases stored with
      | live y =>
        cases hfound
        cases hx
        exact ⟨key, hrun, hmem⟩
      | opening marker =>
        cases hfound
        cases hx
      | replaceable => cases hfound
      | lost => cases hfound
    · cases hfound
  · rintro ⟨key, hrun, hmem⟩
    exact ⟨.session x, ⟨(key, .live x), hmem, by simp [hrun]⟩, rfl⟩

/-- `SessionPool::close_run` takes the live sessions of the run over. -/
theorem Inv.sweep (h : Inv s) {targets : List ActivityCloseTarget}
    (hclose : s.closes run = .bound [] targets) :
    Inv ((s.closeGoto run (.entries (s.entriesToClose run) targets)).loseEntries run) := by
  have hmoved : ∀ other, other ≠ run →
      ((s.closeGoto run (.entries (s.entriesToClose run) targets)).loseEntries run).closes other =
        s.closes other := fun other hother => closeGoto_ne hother s _
  have hself : ((s.closeGoto run (.entries (s.entriesToClose run) targets)).loseEntries run).closes
      run = .entries (s.entriesToClose run) targets := closeGoto_self s run _
  have hbusy : s.closes run ≠ .idle := by simp [hclose]
  refine
    { h with
      owned := fun x managed hx hopen => ?_
      inClose := fun x managed hx hclosed hwait => ?_
      entrySession := fun key x hmem => h.entrySession key x (mem_loseEntries hmem)
      closeHeld := fun other x hx => ?_
      closeInClose := fun other x hx => ?_
      closeBindings := fun other x hx => ?_
      markerOwner := fun key m hentry => ?_
      closedRun := fun other hor => ?_
      awaited := fun i t hi hlive hcall => ?_
      cancelled := fun i t hi hlive hcall => ?_
      spent := fun key entry hswept hentry => ?_ }
  · rcases h.owned x managed hx hopen with htask | ⟨key, hentry⟩ | ⟨other, hheld⟩
    · exact .inl htask
    · by_cases hrun : key.runId = run
      · refine .inr (.inr ⟨run, ?_⟩)
        rw [hself]
        exact mem_entriesToClose.mpr ⟨key, hrun, OrdMap.mem_of_get? hentry⟩
      · refine .inr (.inl ⟨key, (loseEntries_get? _ run key).trans ?_⟩)
        rw [show OrdMap.get? (s.closeGoto run _).entries key = _ from hentry]
        simp [hrun]
    · have hother : other ≠ run := by
        rintro rfl
        rw [hclose] at hheld
        cases hheld
      exact .inr (.inr ⟨other, (hmoved other hother).symm ▸ hheld⟩)
  · rcases h.inClose x managed hx hclosed hwait with htask | ⟨other, hheld⟩
    · exact .inl htask
    · have hother : other ≠ run := by
        rintro rfl
        rw [hclose] at hheld
        cases hheld
      exact .inr ⟨other, (hmoved other hother).symm ▸ hheld⟩
  · by_cases hother : other = run
    · subst hother
      rw [hself] at hx
      obtain ⟨key, hrun, hmem⟩ := mem_entriesToClose.mp hx
      rw [← hrun]
      exact h.entrySession key x hmem
    · rw [hmoved other hother] at hx
      exact h.closeHeld other x hx
  · by_cases hother : other = run
    · subst hother
      rw [hself] at hx
      cases hx
    · rw [hmoved other hother] at hx
      exact h.closeInClose other x hx
  · by_cases hother : other = run
    · subst hother
      rw [hself] at hx
      cases hx
    · rw [hmoved other hother] at hx
      exact h.closeBindings other x hx
  · rw [loseEntries_get?] at hentry
    obtain ⟨entry, hold, heq⟩ := Option.map_eq_some_iff.mp hentry
    split at heq
    · cases heq
    · subst heq
      exact h.markerOwner key m hold
  · by_cases hother : other = run
    · subst hother
      exact h.closedRun other (.inl hbusy)
    · rw [hmoved other hother] at hor
      exact h.closedRun other hor
  · by_cases hother : t.key.runId = run
    · have hmem := h.awaited i t hi hlive (hother ▸ hbusy)
      rw [hother, hclose] at hmem
      rw [hother, hself]
      exact hmem
    · rw [hmoved _ hother] at hcall ⊢
      exact h.awaited i t hi hlive hcall
  · by_cases hother : t.key.runId = run
    · have hor := h.cancelled i t hi hlive (hother ▸ hbusy)
      rw [hother, hclose] at hor
      exact .inr (hor.resolve_left List.not_mem_nil)
    · rw [hmoved _ hother] at hcall ⊢
      exact h.cancelled i t hi hlive hcall
  · rw [loseEntries_get?] at hentry
    obtain ⟨old, hold, heq⟩ := Option.map_eq_some_iff.mp hentry
    split at heq
    · exact .inl heq.symm
    · next hother =>
      subst heq
      refine h.spent key old (hswept.imp_left fun hphase => ?_) hold
      rw [hmoved _ hother] at hphase
      exact hphase

theorem Phase.session_of_held {phase : Phase} {x : Nat} (h : phase.held = some x) :
    phase.session = some x := by
  cases phase with
  | select arm polled => cases arm <;> simp_all [Phase.held, Phase.session, Arm.held, Arm.session]
  | finishOpen marker opened => cases opened <;> simp_all [Phase.held, Phase.session]
  | bind lease | drive lease | finishLease lease clean =>
    simp only [Phase.held, SessionBinding.held] at h
    split at h
    · exact h
    · cases h
  | _ => simp_all [Phase.held, Phase.session]

theorem Phase.session_of_inClose {phase : Phase} {x : Nat} (h : phase.inClose = some x) :
    phase.session = some x := by
  cases phase <;> simp_all [Phase.inClose, Phase.session]

theorem NodeRunner.SessionOf.eq {x : Nat} {other : RunId} (h : s.SessionOf x run)
    (h' : s.SessionOf x other) : run = other := by
  obtain ⟨managed, hmanaged, rfl⟩ := h
  obtain ⟨managed', hmanaged', rfl⟩ := h'
  rw [hmanaged] at hmanaged'
  cases hmanaged'
  rfl

/-- Every target has finished: no party of the run is left. -/
theorem Inv.return (h : Inv s) (hclose : s.closes run = .waiting []) :
    Inv { s.closeGoto run .idle with closeReturned := run :: s.closeReturned } := by
  have hbusy : s.closes run ≠ .idle := by simp [hclose]
  have hswept : s.Swept run := .inl (by simp [hclose, CloseRun.swept])
  have hfinished : ∀ (i : Nat) (t : Task), s.tasks[i]? = some t → t.key.runId = run →
      t.phase = .finished := by
    intro i t hi hrun
    by_contra hlive
    have hmem := h.awaited i t hi hlive (hrun ▸ hbusy)
    rw [hrun, hclose] at hmem
    cases hmem
  have hclosed : ∀ (x : Nat) (managed : ManagedSession), s.sessions[x]? = some managed →
      managed.runId = run → managed.closed = true := by
    intro x managed hx hrun
    have hof : s.SessionOf x run := ⟨managed, hx, hrun⟩
    by_contra hopen
    rcases h.owned x managed hx (eq_false_of_ne_true hopen) with ⟨i, t, hi, hheld⟩ |
      ⟨key, hentry⟩ | ⟨other, hheld⟩
    · have hsame := (h.taskSession i t x hi (Phase.session_of_held hheld)).eq hof
      rw [hfinished i t hi hsame] at hheld
      cases hheld
    · have hsame := (h.entrySession key x (OrdMap.mem_of_get? hentry)).eq hof
      rcases h.spent key _ (hsame ▸ hswept) hentry with hlost | ⟨m, hm, -⟩
      · cases hlost
      · cases hm
    · cases (h.closeHeld other x hheld).eq hof
      rw [hclose] at hheld
      cases hheld
  have hreturned : ∀ (x : Nat) (managed : ManagedSession), s.sessions[x]? = some managed →
      managed.runId = run → managed.closeReturned = true := by
    intro x managed hx hrun
    have hof : s.SessionOf x run := ⟨managed, hx, hrun⟩
    by_contra hwait
    rcases h.inClose x managed hx (hclosed x managed hx hrun) (eq_false_of_ne_true hwait) with
      ⟨i, t, hi, hin⟩ | ⟨other, hin⟩
    · have hsame := (h.taskSession i t x hi (Phase.session_of_inClose hin)).eq hof
      rw [hfinished i t hi hsame] at hin
      cases hin
    · cases (h.closeInClose other x hin).eq hof
      rw [hclose] at hin
      cases hin
  have hended : Inv (s.closeGoto run .idle) :=
    h.closeMove (Advanced.refl _)
      { held := by simp [CloseRun.held]
        inCloseOf := by simp [CloseRun.inClose]
        bindings := by simp [CloseRun.bindings]
        released := by simp [hclose, CloseRun.held]
        inClose := by simp [hclose, CloseRun.inClose]
        closed := by simp
        awaited := by simp
        cancelled := by simp
        swept := by simp [CloseRun.swept] }
  refine
    { hended with
      closedRun := fun other hor => ?_
      spent := fun key entry hor hentry => ?_
      returnedTasks := fun i t hi hmem => ?_
      returnedSessions := fun managed hmem hrun => ?_ }
  · by_cases hother : other = run
    · rw [hother]
      exact h.closedRun run (.inl hbusy)
    · exact hended.closedRun other (hor.imp_right (List.mem_of_ne_of_mem hother))
  · by_cases hother : key.runId = run
    · exact h.spent key entry (hother ▸ hswept) hentry
    · exact hended.spent key entry (hor.imp_right (List.mem_of_ne_of_mem hother)) hentry
  · by_cases hother : t.key.runId = run
    · exact hfinished i t hi hother
    · exact h.returnedTasks i t hi (List.mem_of_ne_of_mem hother hmem)
  · by_cases hother : managed.runId = run
    · obtain ⟨x, hx⟩ := List.mem_iff_getElem?.mp hmem
      exact ⟨hclosed x managed hx hother, hreturned x managed hx hother⟩
    · exact h.returnedSessions managed hmem (List.mem_of_ne_of_mem hother hrun)

theorem isClosed_closed {x : Nat} (h : s.isClosed x = true) {managed : ManagedSession}
    (hx : s.sessions[x]? = some managed) : managed.closed = true := by
  simpa [NodeRunner.isClosed, hx] using h

theorem cancelTask_cancel {i : Nat} {t : Task} (hi : (s.cancelTask i).tasks[i]? = some t) :
    t.cancel = true := by
  rw [cancelTask_tasks] at hi
  obtain ⟨before, -, rfl⟩ := Option.map_eq_some_iff.mp hi
  simp

/-- `ManagedSession::close` of a call of `close_run`, up to the inner `close`. -/
theorem Inv.closeSwap {x : Nat} {skip start : CloseRun}
    (hskip : s.isClosed x = true → Inv (s.closeGoto run skip))
    (hstart : Advanced s.sessions (s.markClosed x).sessions (some x) (fun _ _ => False) →
      (∀ managed, (s.markClosed x).sessions[x]? = some managed → managed.closed = true) →
        Inv ((s.closeGoto run start).markClosed x)) :
    Inv (if s.isClosed x then s.closeGoto run skip
      else (s.closeGoto run start).markClosed x) := by
  split
  · next hclosed => exact hskip hclosed
  · next hopen =>
    exact hstart (.markClosed (eq_false_of_ne_true hopen)) fun managed => markClosed_closed

theorem Inv.stepClose (h : Inv s) {u : NodeRunner} (hstep : s.stepClose run = some u) : Inv u := by
  unfold NodeRunner.stepClose at hstep
  have hheld := h.closeHeld run
  have hbindings := h.closeBindings run
  have hinClose := h.closeInClose run
  split at hstep
  · next hclose =>
    cases hstep
    exact h.beginClose hclose
  · next target rest targets hclose =>
    cases hstep
    rw [hclose] at hbindings
    refine (h.cancelTask target.task).closeOn (by simp [NodeRunner.cancelTask, hclose])
      (Advanced.refl _) ?_ ?_ hbindings ?_ ?_ ?_ ?_ ?_
    · simp [CloseRun.held]
    · simp [CloseRun.inClose]
    · simp [NodeRunner.cancelTask, hclose, CloseRun.held]
    · simp [NodeRunner.cancelTask, hclose, CloseRun.inClose]
    · simp +contextual [NodeRunner.cancelTask, hclose, CloseRun.awaited]
    · intro i t hi hmem
      simp only [NodeRunner.cancelTask, hclose, CloseRun.uncancelled, List.map_cons,
        List.mem_cons] at hmem
      rcases hmem with rfl | hmem
      · exact .inr (cancelTask_cancel hi)
      · exact .inl hmem
    · simp [NodeRunner.cancelTask, hclose, CloseRun.swept]
  · next targets hclose =>
    cases hstep
    rw [hclose] at hbindings
    refine h.closeOn (by simp [hclose]) (Advanced.refl _) ?_ ?_ hbindings ?_ ?_ ?_ ?_ ?_ <;>
      simp +contextual [hclose, CloseRun.held, CloseRun.inClose, CloseRun.awaited,
        CloseRun.uncancelled, CloseRun.swept]
  · next rest targets hclose =>
    cases hstep
    rw [hclose] at hbindings
    refine h.closeOn (by simp [hclose]) (Advanced.refl _) ?_ ?_ ?_ ?_ ?_ ?_ ?_ ?_
    · simp [CloseRun.held]
    · simp [CloseRun.inClose]
    · simpa [CloseRun.bindings, ActivityCloseTarget.managed] using hbindings
    all_goals
      simp +contextual [hclose, CloseRun.held, CloseRun.inClose, CloseRun.awaited,
        CloseRun.uncancelled, CloseRun.swept]
  · next session rest targets hclose =>
    cases hstep
    rw [hclose] at hbindings
    simp only [CloseRun.bindings, ActivityCloseTarget.managed, List.filterMap_cons, Option.map_some,
      List.forall_mem_cons] at hbindings
    refine h.closeOn (by simp [hclose]) (Advanced.refl _) ?_ ?_ hbindings.2 ?_ ?_ ?_ ?_ ?_
    · simpa [CloseRun.held] using hbindings.1
    all_goals
      simp +contextual [hclose, CloseRun.held, CloseRun.inClose, CloseRun.awaited,
        CloseRun.uncancelled, CloseRun.swept]
  · next session key rest targets hclose =>
    cases hstep
    rw [hclose] at hbindings
    simp only [CloseRun.bindings, ActivityCloseTarget.managed, List.filterMap_cons, Option.map_some,
      List.forall_mem_cons] at hbindings
    have hmoved : Inv (s.closeGoto run (.boundClose session rest targets)) := by
      refine h.closeOn (by simp [hclose]) (Advanced.refl _) ?_ ?_ hbindings.2 ?_ ?_ ?_ ?_ ?_
      · simpa [CloseRun.held] using hbindings.1
      all_goals
        simp +contextual [hclose, CloseRun.held, CloseRun.inClose, CloseRun.awaited,
          CloseRun.uncancelled, CloseRun.swept]
    refine hmoved.replaceLive (.inl rfl) (.inr ⟨run, ?_⟩)
    rw [closeGoto_self]
    exact List.mem_singleton_self session
  · next targets hclose =>
    cases hstep
    exact h.sweep hclose
  · next session rest targets hclose =>
    cases hstep
    rw [hclose] at hheld hbindings
    refine Inv.closeSwap (fun hclosed => ?_) fun hadv hdone => ?_
    · refine h.closeOn (by simp [hclose]) (Advanced.refl _) ?_ ?_ hbindings ?_ ?_ ?_ ?_ ?_
      · simp [CloseRun.held]
      · simp [CloseRun.inClose]
      · intro x hx
        rw [hclose] at hx
        cases List.mem_singleton.mp hx
        exact .inr fun managed => isClosed_closed hclosed
      all_goals
        simp +contextual [hclose, CloseRun.inClose, CloseRun.awaited, CloseRun.uncancelled,
          CloseRun.swept]
    · refine h.closeOn (by simp [hclose]) hadv ?_ ?_ hbindings ?_ ?_ ?_ ?_ ?_
      · simp [CloseRun.held]
      · intro x hx
        cases hx
        exact hheld session (List.mem_singleton_self session)
      · intro x hx
        rw [hclose] at hx
        cases List.mem_singleton.mp hx
        exact .inr hdone
      all_goals
        simp +contextual [hclose, CloseRun.inClose, CloseRun.awaited, CloseRun.uncancelled,
          CloseRun.swept]
  · next session rest targets hclose =>
    cases hstep
    rw [hclose] at hbindings
    refine h.closeOn (by simp [hclose]) (Advanced.markReturned s session) ?_ ?_ hbindings
      ?_ ?_ ?_ ?_ ?_
    · simp [CloseRun.held]
    · simp [CloseRun.inClose]
    · simp [hclose, CloseRun.held]
    · intro x hx
      rw [hclose] at hx
      cases hx
      exact .inr fun managed => markReturned_closeReturned
    all_goals
      simp +contextual [hclose, CloseRun.awaited, CloseRun.uncancelled, CloseRun.swept]
  · next session rest targets hclose =>
    cases hstep
    rw [hclose] at hheld
    simp only [CloseRun.held, EntryToClose.managed, List.filterMap_cons,
      List.forall_mem_cons] at hheld
    refine Inv.closeSwap (fun hclosed => ?_) fun hadv hdone => ?_
    · refine h.closeOn (by simp [hclose]) (Advanced.refl _) hheld.2 ?_ ?_ ?_ ?_ ?_ ?_ ?_
      · simp [CloseRun.inClose]
      · simp [CloseRun.bindings]
      · intro x hx
        rw [hclose] at hx
        rcases List.mem_cons.mp hx with rfl | hx
        · exact .inr fun managed => isClosed_closed hclosed
        · exact .inl hx
      all_goals
        simp +contextual [hclose, CloseRun.inClose, CloseRun.awaited, CloseRun.uncancelled,
          CloseRun.swept]
    · refine h.closeOn (by simp [hclose]) hadv hheld.2 ?_ ?_ ?_ ?_ ?_ ?_ ?_
      · intro x hx
        cases hx
        exact hheld.1
      · simp [CloseRun.bindings]
      · intro x hx
        rw [hclose] at hx
        rcases List.mem_cons.mp hx with rfl | hx
        · exact .inr hdone
        · exact .inl hx
      all_goals
        simp +contextual [hclose, CloseRun.inClose, CloseRun.awaited, CloseRun.uncancelled,
          CloseRun.swept]
  · next marker rest targets hclose =>
    cases hstep
    rw [hclose] at hheld
    have hmoved : Inv (s.closeGoto run (.entries rest targets)) := by
      refine h.closeOn (by simp [hclose]) (Advanced.refl _) hheld ?_ ?_ ?_ ?_ ?_ ?_ ?_ <;>
        simp +contextual [hclose, CloseRun.held, EntryToClose.managed, CloseRun.bindings,
          CloseRun.inClose, CloseRun.awaited, CloseRun.uncancelled, CloseRun.swept]
    exact hmoved.sendReady marker
  · next targets hclose =>
    cases hstep
    refine h.closeOn (by simp [hclose]) (Advanced.refl _) ?_ ?_ ?_ ?_ ?_ ?_ ?_ ?_ <;>
      simp +contextual [hclose, CloseRun.held, CloseRun.bindings, CloseRun.inClose,
        CloseRun.awaited, CloseRun.uncancelled, CloseRun.swept]
  · next session rest targets hclose =>
    cases hstep
    rw [hclose] at hheld
    refine h.closeOn (by simp [hclose]) (Advanced.markReturned s session) hheld ?_ ?_ ?_ ?_ ?_ ?_ ?_
    · simp [CloseRun.inClose]
    · simp [CloseRun.bindings]
    · simp +contextual [hclose, CloseRun.held]
    · intro x hx
      rw [hclose] at hx
      cases hx
      exact .inr fun managed => markReturned_closeReturned
    all_goals
      simp +contextual [hclose, CloseRun.awaited, CloseRun.uncancelled, CloseRun.swept]
  · next target rest hclose =>
    split at hstep
    · next hdone =>
      cases hstep
      refine h.closeOn (by simp [hclose]) (Advanced.refl _) ?_ ?_ ?_ ?_ ?_ ?_ ?_ ?_
      rotate_left 5
      · intro i t hi hlive hmem
        rw [hclose] at hmem
        rcases List.mem_cons.mp hmem with rfl | hmem
        · simp only [NodeRunner.isDone, hi] at hdone
          split at hdone
          · next hfinished =>
            cases hfinished
            exact absurd rfl hlive
          · cases hdone
        · exact hmem
      all_goals
        simp +contextual [hclose, CloseRun.held, CloseRun.bindings, CloseRun.inClose,
          CloseRun.uncancelled, CloseRun.swept]
    · cases hstep
  · next hclose =>
    cases hstep
    exact h.return hclose

end

/-- Every step keeps the invariant. -/
theorem Inv.after {event : Event} {s u : NodeRunner} (hstep : step event s = some u) (h : Inv s) :
    Inv u := by
  cases event with
  | start key nodeInstance scope => exact h.register hstep
  | cancel task =>
    cases hstep
    exact h.cancelTask task
  | task task answer =>
    obtain ⟨t, ht, hstep⟩ := Option.bind_eq_some_iff.mp hstep
    exact h.stepTask ht hstep
  | closeRun run => exact h.stepClose hstep

section

variable {s u : NodeRunner} {key : SessionKey}

/-- What a step may do to the entry of a key: lose it, change it from something not lost to
something not live, or fill it by the task whose marker stands there. -/
def EntryStep (s u : NodeRunner) (event : Event) (key : SessionKey) : Prop :=
  OrdMap.get? u.entries key = OrdMap.get? s.entries key ∨
    OrdMap.get? u.entries key = some .lost ∨
      (OrdMap.get? s.entries key ≠ some .lost ∧ ∀ x, OrdMap.get? u.entries key ≠ some (.live x)) ∨
        ∃ i t marker x, event = .task i .go ∧ s.tasks[i]? = some t ∧ t.sessionKey = key ∧
          t.phase = .finishOpen marker (.ok x) ∧
            OrdMap.get? s.entries key = some (.opening marker) ∧
              OrdMap.get? u.entries key = some (.live x)

theorem EntryStep.same {event : Event} (h : u.entries = s.entries) : EntryStep s u event key :=
  .inl (by rw [h])

end

/-! ## After the return -/

/-- The invocations ever registered for a run. -/
def NodeRunner.invocations (s : NodeRunner) (r : RunId) : List ActiveKey :=
  (s.tasks.map Task.key).filter fun key => decide (key.runId = r)

/-- The number of sessions the factory ever returned for a run. -/
def NodeRunner.opens (s : NodeRunner) (r : RunId) : Nat :=
  (s.sessions.map ManagedSession.runId).count r

/-- The step registers no invocation and opens no session. -/
structure Settled (s u : NodeRunner) : Prop where
  keys : u.tasks.map Task.key = s.tasks.map Task.key
  runs : u.sessions.map ManagedSession.runId = s.sessions.map ManagedSession.runId
  returned : ∀ r ∈ s.closeReturned, r ∈ u.closeReturned

section

variable {s u : NodeRunner} {i : Nat} {t : Task}

theorem Settled.goto (hi : s.tasks[i]? = some t) (phase : Phase) :
    Settled s (s.goto i t phase) where
  keys := by
    obtain ⟨hlt, rfl⟩ := List.getElem?_eq_some_iff.mp hi
    apply List.ext_getElem?
    intro j
    simp only [NodeRunner.goto, List.getElem?_map]
    by_cases hj : i = j
    · subst hj
      simp [hlt]
    · simp [List.getElem?_set_ne hj]
  runs := rfl
  returned _ := id

theorem map_modify_of_eq {α β : Type} (f : α → β) (g : α → α) (hg : ∀ a, f (g a) = f a)
    (l : List α) (k : Nat) : (l.modify k g).map f = l.map f := by
  apply List.ext_getElem?
  intro j
  simp only [List.getElem?_map, List.getElem?_modify]
  cases l[j]? with
  | none => rfl
  | some a => by_cases hj : k = j <;> simp [hj, hg]

theorem Settled.markClosed (h : Settled s u) (x : Nat) : Settled s (u.markClosed x) :=
  { h with runs := (map_modify_of_eq _ _ (by intro _; rfl) _ _).trans h.runs }

theorem Settled.markReturned (h : Settled s u) (x : Nat) : Settled s (u.markReturned x) :=
  { h with runs := (map_modify_of_eq _ _ (by intro _; rfl) _ _).trans h.runs }

theorem Settled.replaceLive (h : Settled s u) (key : SessionKey) (x : Nat) (next : SessionEntry) :
    Settled s (u.replaceLive key x next) := by
  unfold NodeRunner.replaceLive
  split
  · exact { h with }
  · exact h

theorem Settled.ite {c : Prop} [Decidable c] {a b : NodeRunner} (ha : Settled s a)
    (hb : Settled s b) : Settled s (if c then a else b) := by
  split
  · exact ha
  · exact hb

theorem Settled.checkout (hi : s.tasks[i]? = some t) : Settled s (s.checkout i t) := by
  unfold NodeRunner.checkout
  split
  · exact .goto hi _
  · split
    · exact .goto hi _
    · exact .goto hi _
    · exact .goto hi _
    · exact { Settled.goto hi _ with }
    · exact { Settled.goto hi _ with }

theorem Settled.finishOpen (hi : s.tasks[i]? = some t) (marker : Nat)
    (opened : Except NodeRunnerError Nat) : Settled s (s.finishOpen i t marker opened) := by
  unfold NodeRunner.finishOpen
  refine .ite ?_ ?_
  · cases opened with
    | ok x => exact { Settled.goto hi _ with }
    | error error => exact .ite { Settled.goto hi _ with } { Settled.goto hi _ with }
  · cases opened with
    | ok x => exact { Settled.goto hi _ with }
    | error error => exact { Settled.goto hi _ with }

/-- A step of a task opens a session for its own run or none. -/
theorem stepTask_settled {answer : Answer} (hi : s.tasks[i]? = some t)
    (hstep : s.stepTask i t answer = some u) :
    Settled s u ∨ (t.phase ≠ .finished ∧ u.tasks.map Task.key = s.tasks.map Task.key ∧
      u.sessions.map ManagedSession.runId =
        s.sessions.map ManagedSession.runId ++ [t.key.runId] ∧
          u.closeReturned = s.closeReturned) := by
  unfold NodeRunner.stepTask at hstep
  split at hstep
  · cases hstep
    exact .inl (.checkout hi)
  · cases hstep
    exact .inl (.ite (.goto hi _) (.goto hi _))
  · cases hstep
    exact .inl (.goto hi _)
  · split at hstep
    · cases hstep
      exact .inl (.goto hi _)
    · cases hstep
  · next hphase =>
    cases hstep
    refine .inr ⟨by simp [hphase], (Settled.goto hi _).keys, ?_, rfl⟩
    simp [NodeRunner.opened]
  · cases hstep
    exact .inl (.goto hi _)
  · cases hstep
    exact .inl (.ite (.ite (.goto hi _) (.goto hi _)) (.goto hi _))
  · cases hstep
    exact .inl (.ite (.goto hi _) (.goto hi _))
  · cases hstep
    exact .inl (.ite (.ite (.goto hi _) (.goto hi _)) (.goto hi _))
  · cases hstep
    exact .inl (.ite (.goto hi _) (.goto hi _))
  · cases hstep
    exact .inl (.finishOpen hi _ _)
  · cases hstep
    exact .inl ((Settled.goto hi _).replaceLive _ _ _)
  · cases hstep
    exact .inl (.ite (.goto hi _) ((Settled.goto hi _).markClosed _))
  · cases hstep
    exact .inl ((Settled.goto hi _).markReturned _)
  · cases hstep
    unfold NodeRunner.bindSession
    refine .inl (.ite (.goto hi _) ?_)
    split
    · exact .goto hi _
    · exact { Settled.goto hi _ with }
  · cases hstep
    exact .inl (.goto hi _)
  · cases hstep
    unfold NodeRunner.finishLease
    split
    · exact .inl (.goto hi _)
    · exact .inl (.ite (.goto hi _) (.goto hi _))
  · cases hstep
    exact .inl { Settled.goto hi _ with }
  · cases hstep

theorem Settled.refl (s : NodeRunner) : Settled s s := ⟨rfl, rfl, fun _ => id⟩

theorem Settled.closeGoto (r : RunId) (phase : CloseRun) : Settled s (s.closeGoto r phase) :=
  { Settled.refl s with }

theorem Settled.cancelTask (s : NodeRunner) (i : Nat) : Settled s (s.cancelTask i) :=
  { Settled.refl s with keys := map_modify_of_eq _ _ (by intro _; rfl) _ _ }

theorem stepClose_settled {r : RunId} (hstep : s.stepClose r = some u) : Settled s u := by
  unfold NodeRunner.stepClose at hstep
  split at hstep
  · cases hstep
    exact { Settled.refl s with }
  · cases hstep
    exact { Settled.cancelTask s _ with }
  · cases hstep
    exact .closeGoto r _
  · cases hstep
    exact .closeGoto r _
  · cases hstep
    exact .closeGoto r _
  · cases hstep
    exact (Settled.closeGoto r _).replaceLive _ _ _
  · cases hstep
    exact { Settled.refl s with }
  · cases hstep
    exact .ite (.closeGoto r _) ((Settled.closeGoto r _).markClosed _)
  · cases hstep
    exact (Settled.closeGoto r _).markReturned _
  · cases hstep
    exact .ite (.closeGoto r _) ((Settled.closeGoto r _).markClosed _)
  · cases hstep
    exact { Settled.refl s with }
  · cases hstep
    exact .closeGoto r _
  · cases hstep
    exact (Settled.closeGoto r _).markReturned _
  · split at hstep
    · cases hstep
      exact .closeGoto r _
    · cases hstep
  · cases hstep
    exact { Settled.refl s with returned := fun _ hr => List.mem_cons_of_mem _ hr }

/-- A closed run gets no invocation and no session. -/
theorem Inv.settled (h : Inv s) {event : Event} (hstep : step event s = some u) {r : RunId}
    (hr : r ∈ s.closeReturned) :
    r ∈ u.closeReturned ∧ u.invocations r = s.invocations r ∧ u.opens r = s.opens r := by
  have hkept : Settled s u →
      r ∈ u.closeReturned ∧ u.invocations r = s.invocations r ∧ u.opens r = s.opens r := by
    intro hsettled
    unfold NodeRunner.invocations NodeRunner.opens
    rw [hsettled.keys, hsettled.runs]
    exact ⟨hsettled.returned r hr, rfl, rfl⟩
  cases event with
  | start key nodeInstance scope =>
    unfold step NodeRunner.register at hstep
    dsimp only at hstep
    split at hstep
    · cases hstep
    next hopen =>
    split at hstep
    · cases hstep
    · cases hstep
      have hother : key.runId ≠ r := by
        rintro rfl
        exact hopen (h.closedRun _ (.inr hr))
      exact ⟨hr, by simp [NodeRunner.invocations, hother], rfl⟩
  | cancel task =>
    cases hstep
    exact hkept (.cancelTask s task)
  | task task answer =>
    obtain ⟨t, ht, hstep⟩ := Option.bind_eq_some_iff.mp hstep
    rcases stepTask_settled ht hstep with hsettled | ⟨hlive, hkeys, hruns, hreturned⟩
    · exact hkept hsettled
    · have hother : t.key.runId ≠ r := by
        rintro rfl
        exact hlive (h.returnedTasks task t ht hr)
      unfold NodeRunner.invocations NodeRunner.opens
      rw [hkeys, hruns, hreturned]
      exact ⟨hr, rfl, by simp [hother]⟩
  | closeRun r' => exact hkept (stepClose_settled hstep)

end

namespace Sample

def run : RunId := ⟨"run"⟩

theorem one_lt_limit : 1 < 2 ^ 64 := by decide

def first : ActiveKey := ⟨run, ⟨1, Nat.zero_lt_one, one_lt_limit⟩⟩

def second : ActiveKey := ⟨run, ⟨2, Nat.zero_lt_two, by decide⟩⟩

def nodeInstance : NodeInstanceId := ⟨1, Nat.zero_lt_one, one_lt_limit⟩

/-- A close that starts while one invocation drives a pooled session and another waits for the
factory, which still returns a session after the cancellation. -/
def closing : List Event :=
  [.start first nodeInstance .nodeInstance, .start second nodeInstance .execution,
    .task 0 .go, .task 0 .go, .task 0 .session, .task 0 .go, .task 0 .go, .task 0 (.live true),
    .task 0 .go, .task 0 .go, .task 1 .go, .task 1 .go,
    .closeRun run, .closeRun run, .closeRun run,
    .task 1 .session, .task 1 .go, .task 1 .go,
    .closeRun run, .closeRun run, .closeRun run, .closeRun run, .closeRun run, .closeRun run,
    .closeRun run, .task 1 .go, .task 1 .go,
    .task 0 (.driven false), .task 0 .go, .task 0 .go, .task 0 .go, .task 0 .go,
    .closeRun run, .closeRun run, .closeRun run]

end Sample

end Zeroshot.Runner
