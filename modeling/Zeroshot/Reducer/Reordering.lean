import Zeroshot.Reducer.Reduction
import Zeroshot.Reducer.Repositioning

set_option autoImplicit false

/-!
# Reordered histories

A history is a set of executions: validation leaves no two of them with one identity, or with one
occurrence and one dispatch position, and whatever a reduction takes from the list it takes by
those keys. So two lists that hold the same executions, in any order and at moved positions
(`MovedHistory`), are accepted alike and reduce to the same result.
-/

namespace Zeroshot

open Logged

variable {M : HistoryPosition → HistoryPosition → Prop}

variable (M) in
/-- The same executions, in some order and at moved positions. -/
abbrev MovedHistory : List DurableExecution → List DurableExecution → Prop :=
  Rearranged (MovedExecution M)

/-! ## Distinct keys -/

theorem distinctBy_iff {α κ : Type} [DecidableEq κ] (key : α → κ) (l : List α) :
    distinctBy key l = true ↔ l.Pairwise fun a b => key a ≠ key b := by
  induction l with
  | nil => simp [distinctBy]
  | cons a l ih => simp [distinctBy, ih]

theorem eq_of_distinctBy {α κ : Type} [DecidableEq κ] {key : α → κ} {l : List α}
    (h : distinctBy key l = true) {a b : α} (ha : a ∈ l) (hb : b ∈ l) (hkey : key a = key b) :
    a = b := by
  rw [distinctBy_iff] at h
  induction h with
  | nil => cases ha
  | @cons c l hhead _ ih =>
    rcases List.mem_cons.mp ha with rfl | hal <;> rcases List.mem_cons.mp hb with rfl | hbl
    · rfl
    · exact absurd hkey (hhead b hbl)
    · exact absurd hkey.symm (hhead a hal)
    · exact ih hal hbl

theorem distinctBy_moved {κ κ' : Type} [DecidableEq κ] [DecidableEq κ']
    {key : DurableExecution → κ} {key' : DurableExecution → κ'} {l l' : List DurableExecution}
    (hkey : ∀ a a' b b', MovedExecution M a a' → MovedExecution M b b' →
      (key a = key b ↔ key' a' = key' b')) (h : MovedHistory M l l') :
    distinctBy key l = distinctBy key' l' := by
  rw [Bool.eq_iff_iff, distinctBy_iff, distinctBy_iff]
  exact h.pairwise_iff (fun _ _ hne => hne.symm)
    fun a a' b b' ha hb => not_congr (hkey a a' b b' ha hb)

theorem instanceLineageValid_iff (l : List DurableExecution) :
    instanceLineageValid l = true ↔
      l.Pairwise fun a b => (a.occurrence = b.occurrence ↔ a.nodeInstance = b.nodeInstance) := by
  induction l with
  | nil => simp [instanceLineageValid]
  | cons a l ih => simp [instanceLineageValid, ih]

theorem instanceLineageValid_moved {l l' : List DurableExecution} (h : MovedHistory M l l') :
    instanceLineageValid l = instanceLineageValid l' := by
  rw [Bool.eq_iff_iff, instanceLineageValid_iff, instanceLineageValid_iff]
  refine h.pairwise_iff (fun a b hab => ?_) fun a a' b b' ha hb => ?_
  · rw [eq_comm, hab, eq_comm]
  · rw [ha.rest, hb.rest]

/-! ## Sorted executions -/

instance : Std.Total dispatchedBefore where
  total a b := le_total a.dispatchPosition b.dispatchPosition

instance : IsTrans DurableExecution dispatchedBefore where
  trans _ _ _ hab hbc := le_trans hab hbc

instance : Std.Total attemptedBefore where
  total a b := le_total a.attempt.get b.attempt.get

instance : IsTrans DurableExecution attemptedBefore where
  trans _ _ _ hab hbc := le_trans hab hbc

theorem matching_moved {l l' : List DurableExecution} (h : MovedHistory M l l')
    (occurrence : StructuralOccurrence) :
    MovedHistory M (matching l occurrence) (matching l' occurrence) :=
  h.filter fun e e' he => by rw [he.rest]

theorem occurrence_eq_of_mem_matching {l : List DurableExecution}
    {occurrence : StructuralOccurrence} {e : DurableExecution} (h : e ∈ matching l occurrence) :
    e.occurrence = occurrence :=
  eq_of_beq (List.mem_filter.mp h).2

section

variable {l l' : List DurableExecution} (h : MovedHistory M l l')
include h

theorem sortByDispatch_moved (hM : Moves M)
    (hdistinct : distinctBy (fun e => (e.occurrence, e.dispatchPosition)) l = true)
    (occurrence : StructuralOccurrence) :
    List.Forall₂ (MovedExecution M) (sortByDispatch (matching l occurrence))
      (sortByDispatch (matching l' occurrence)) := by
  refine (matching_moved h occurrence).insertionSort (fun a ha b hb hab hba => ?_)
    fun a a' b b' ha hb => hM.order.le_iff ha.dispatched hb.dispatched
  have hposition : a.dispatchPosition = b.dispatchPosition := le_antisymm hab hba
  refine eq_of_distinctBy hdistinct (List.mem_of_mem_filter ha) (List.mem_of_mem_filter hb) ?_
  rw [occurrence_eq_of_mem_matching ha, occurrence_eq_of_mem_matching hb, hposition]

theorem sortByAttempt_moved
    (hdistinct : distinctBy (fun e => (e.occurrence, e.attempt)) l = true)
    (occurrence : StructuralOccurrence) :
    List.Forall₂ (MovedExecution M) (sortByAttempt (matching l occurrence))
      (sortByAttempt (matching l' occurrence)) := by
  refine (matching_moved h occurrence).insertionSort (fun a ha b hb hab hba => ?_)
    fun a a' b b' ha hb => ?_
  · have hattempt : a.attempt = b.attempt := PositiveInteger.eq_of_get (le_antisymm hab hba)
    refine eq_of_distinctBy hdistinct (List.mem_of_mem_filter ha) (List.mem_of_mem_filter hb) ?_
    rw [occurrence_eq_of_mem_matching ha, occurrence_eq_of_mem_matching hb, hattempt]
  · unfold attemptedBefore
    rw [ha.rest, hb.rest]

end

/-! ## Validation -/

section

variable (hM : Moves M)
include hM

theorem attemptFollows_moved {a a' b b' : DurableExecution} (ha : MovedExecution M a a')
    (hb : MovedExecution M b b') : attemptFollows a b = attemptFollows a' b' := by
  obtain ⟨p', s', rfl, -, hs⟩ := ha.eq_moved
  obtain ⟨q', u', rfl, hq, -⟩ := hb.eq_moved
  have hfinal : followsFinalizedVisit a b =
      followsFinalizedVisit { a with dispatchPosition := p', state := s' }
        { b with dispatchPosition := q', state := u' } := by
    unfold followsFinalizedVisit DurableExecution.finalPosition?
    revert hs
    generalize a.state = s
    intro hs
    cases hs with
    | active => rfl
    | settled hp outcome =>
      exact decide_eq_decide.mpr (hM.order.lt_iff hp hq)
    | voided hp reason =>
      exact decide_eq_decide.mpr (hM.order.lt_iff hp hq)
  unfold attemptFollows followsFailedAttempt
  rw [hfinal, ha.isCrashed]

theorem windows_moved {l l' : List DurableExecution}
    (h : List.Forall₂ (MovedExecution M) l l') :
    windows attemptFollows l = windows attemptFollows l' := by
  induction h with
  | nil => rfl
  | cons ha htail ih =>
    cases htail with
    | nil => rfl
    | cons hb htail => rw [windows, windows, ih, attemptFollows_moved hM ha hb]

theorem occurrenceLineageValid_moved {l l' : List DurableExecution}
    (h : List.Forall₂ (MovedExecution M) l l') :
    occurrenceLineageValid l = occurrenceLineageValid l' := by
  unfold occurrenceLineageValid
  rw [windows_moved hM h]
  cases h with
  | nil => rfl
  | @cons a a' _ _ ha _ =>
    dsimp only
    rw [show a'.attempt = a.attempt by rw [ha.rest]]

theorem visitIdentitiesValid_moved (mode : ExecutionMode) {l l' : List DurableExecution}
    (h : MovedHistory M l l') : visitIdentitiesValid mode l = visitIdentitiesValid mode l' := by
  have hids : distinctBy DurableExecution.execution l =
      distinctBy DurableExecution.execution l' := by
    refine distinctBy_moved (fun a a' b b' ha hb => ?_) h
    rw [ha.rest, hb.rest]
  unfold visitIdentitiesValid
  rw [hids]
  cases mode with
  | legacyAttempts =>
    congr 1
    refine distinctBy_moved (fun a a' b b' ha hb => ?_) h
    rw [ha.rest, hb.rest]
  | nativeV2 =>
    congr 1
    refine distinctBy_moved (fun a a' b b' ha hb => ?_) h
    have hposition := hM.order.eq_iff ha.dispatched hb.dispatched
    have hoccurrence : a.occurrence = b.occurrence ↔ a'.occurrence = b'.occurrence := by
      rw [ha.rest, hb.rest]
    rw [Prod.mk.injEq, Prod.mk.injEq, hposition, hoccurrence]

theorem nativeAttemptLineageValid_moved {l l' : List DurableExecution} (h : MovedHistory M l l')
    (hdistinct : distinctBy (fun e => (e.occurrence, e.dispatchPosition)) l = true) :
    nativeAttemptLineageValid l = nativeAttemptLineageValid l' := by
  refine h.all_eq fun e e' he => ?_
  rw [show e'.occurrence = e.occurrence by rw [he.rest]]
  exact occurrenceLineageValid_moved hM (sortByDispatch_moved h hM hdistinct e.occurrence)

omit hM in
theorem legacyAttemptsValid_moved {l l' : List DurableExecution} (h : MovedHistory M l l')
    (hdistinct : distinctBy (fun e => (e.occurrence, e.attempt)) l = true) :
    legacyAttemptsValid l = legacyAttemptsValid l' := by
  refine h.all_eq fun e e' he => ?_
  rw [show e'.occurrence = e.occurrence by rw [he.rest]]
  have hvalues := map_moved (f := fun e => e.attempt.get) (fun e e' he => by rw [he.rest])
    (sortByAttempt_moved h hdistinct e.occurrence)
  dsimp only
  rw [hvalues]

/-- **Moved histories are accepted alike.** -/
theorem validateHistoryForMode_moved (mode : ExecutionMode) {l l' : List DurableExecution}
    (h : MovedHistory M l l') :
    validateHistoryForMode l mode = validateHistoryForMode l' mode := by
  unfold validateHistoryForMode
  rw [← visitIdentitiesValid_moved hM mode h, ← instanceLineageValid_moved h]
  cases hvalid : visitIdentitiesValid mode l with
  | false => rfl
  | true =>
    have hdistinct := (Bool.and_eq_true_iff.mp hvalid).2
    cases mode with
    | legacyAttempts => rw [legacyAttemptsValid_moved h hdistinct]
    | nativeV2 => rw [nativeAttemptLineageValid_moved hM h hdistinct]

end

/-! ## Visits -/

namespace Engine

theorem nativeVisitExecutions_moved (requested visit : Nat) {l l' : List DurableExecution}
    (h : List.Forall₂ (MovedExecution M) l l') :
    List.Forall₂ (MovedExecution M) (nativeVisitExecutions requested visit l)
      (nativeVisitExecutions requested visit l') := by
  induction h generalizing visit with
  | nil => exact .nil
  | @cons e e' _ _ he _ ih =>
    unfold nativeVisitExecutions
    rw [show e'.attempt = e.attempt by rw [he.rest]]
    dsimp only
    generalize (if e.attempt.get = 1 then visit + 1 else visit) = current
    split
    · exact .cons he (ih current)
    · exact ih current

theorem resolveLegacyVisit_moved (spec : ExecutableSpec) (occurrence : StructuralOccurrence)
    {matched matched' : List DurableExecution}
    (h : List.Forall₂ (MovedExecution M) matched matched') (number : Nat) :
    Related (MovedEffect M) (MovedResolution M)
      (lift (resolveLegacyVisit spec occurrence matched number))
      (lift (resolveLegacyVisit spec occurrence matched' number)) := by
  unfold resolveLegacyVisit
  cases PositiveInteger.new number with
  | none => exact .fail _
  | some attempt =>
    dsimp only
    split
    · exact .pure .exhausted
    · have hexisting := forall₂_find? (p := fun e => e.attempt == attempt)
        (q := fun e => e.attempt == attempt) (fun e e' he => by rw [he.rest]) h
      refine .pure (.ready ⟨h, ?_, hexisting, rfl, rfl, rfl⟩)
      revert hexisting
      generalize List.find? (fun e => e.attempt == attempt) matched = existing
      generalize List.find? (fun e => e.attempt == attempt) matched' = existing'
      intro hexisting
      cases hexisting with
      | none => exact .nil
      | some he => exact .cons he .nil

theorem resolveNativeVisit_moved (spec : ExecutableSpec) (occurrence : StructuralOccurrence)
    {matched matched' : List DurableExecution}
    (h : List.Forall₂ (MovedExecution M) matched matched') (number : Nat) :
    Related (MovedEffect M) (MovedResolution M)
      (lift (resolveNativeVisit spec occurrence matched number))
      (lift (resolveNativeVisit spec occurrence matched' number)) := by
  have hvisit := nativeVisitExecutions_moved number 0 h
  have hexisting : Option.Rel (MovedExecution M) (nativeVisitExecutions number 0 matched).getLast?
      (nativeVisitExecutions number 0 matched').getLast? := by
    rcases forall₂_getLast? hvisit with ⟨hnone, hnone'⟩ | ⟨e, e', hlast, hlast', he⟩
    · rw [hnone, hnone']
      exact .none
    · rw [hlast, hlast']
      exact .some he
  have hattempt : (nativeVisitExecutions number 0 matched').getLast?.map DurableExecution.attempt =
      (nativeVisitExecutions number 0 matched).getLast?.map DurableExecution.attempt := by
    revert hexisting
    generalize (nativeVisitExecutions number 0 matched).getLast? = existing
    generalize (nativeVisitExecutions number 0 matched').getLast? = existing'
    intro hexisting
    cases hexisting with
    | none => rfl
    | some he => rw [Option.map_some, Option.map_some, he.rest]
  unfold resolveNativeVisit
  dsimp only
  rw [hattempt]
  split
  · exact .fail _
  · exact .pure (.ready ⟨h, hvisit, hexisting, rfl, rfl, rfl⟩)

/-- **Engines over moved histories find the same executions.** -/
theorem movedEngine (hM : Moves M) {engine engine' : Engine}
    (hconfig : Configured engine engine') (hmode : engine.executionMode = engine'.executionMode)
    (hhistory : MovedHistory M engine.executions engine'.executions)
    (hvalid : validateHistoryForMode engine.executions engine.executionMode = true) :
    MovedEngine M engine engine' := by
  refine ⟨hconfig, hmode, fun spec context mapIndices => ?_⟩
  have hidentities := (Bool.and_eq_true_iff.mp (Bool.and_eq_true_iff.mp hvalid).1).1
  have hdistinct := (Bool.and_eq_true_iff.mp hidentities).2
  unfold resolveVisit
  rw [← hmode]
  cases hengine : engine.executionMode with
  | legacyAttempts =>
    rw [hengine] at hdistinct
    exact resolveLegacyVisit_moved spec _ (sortByAttempt_moved hhistory hdistinct _) _
  | nativeV2 =>
    rw [hengine] at hdistinct
    exact resolveNativeVisit_moved spec _ (sortByDispatch_moved hhistory hM hdistinct _) _

end Engine

/-! ## Progress -/

variable (M) in
/-- The same void request at a moved position. -/
structure MovedCutoff (cutoff cutoff' : VoidCutoff) : Prop where
  position : M cutoff.position cutoff'.position
  reason : cutoff.reason = cutoff'.reason

variable (M) in
/-- The same progress, up to the positions of the void requests. -/
structure MovedProgress (progress progress' : Progress) : Prop where
  cutoffs : ∀ execution, Option.Rel (MovedCutoff M)
    (OrdMap.get? progress.voidCutoffs execution) (OrdMap.get? progress'.voidCutoffs execution)
  rest : progress' = { progress with voidCutoffs := progress'.voidCutoffs }

namespace MovedProgress

variable {progress progress' : Progress} (h : MovedProgress M progress progress')
include h

theorem eq_moved : ∃ cutoffs', progress' = { progress with voidCutoffs := cutoffs' } ∧
    ∀ execution, Option.Rel (MovedCutoff M) (OrdMap.get? progress.voidCutoffs execution)
      (OrdMap.get? cutoffs' execution) :=
  ⟨progress'.voidCutoffs, h.rest, h.cutoffs⟩

theorem push (decision : Decision) :
    MovedProgress M (progress.push decision) (progress'.push decision) := by
  obtain ⟨cutoffs', rfl, hcutoffs⟩ := h.eq_moved
  exact ⟨hcutoffs, rfl⟩

theorem consume (visit : Visit) :
    MovedProgress M (progress.consume visit) (progress'.consume visit) := by
  obtain ⟨cutoffs', rfl, hcutoffs⟩ := h.eq_moved
  exact ⟨hcutoffs, rfl⟩

theorem recordVoidCutoff (hM : Moves M) (execution : ExecutionId) {cutoff cutoff' : VoidCutoff}
    (hcutoff : MovedCutoff M cutoff cutoff') :
    MovedCutoff M (progress.recordVoidCutoff execution cutoff).1
      (progress'.recordVoidCutoff execution cutoff').1 ∧
    MovedProgress M (progress.recordVoidCutoff execution cutoff).2
      (progress'.recordVoidCutoff execution cutoff').2 := by
  obtain ⟨cutoffs', rfl, hcutoffs⟩ := h.eq_moved
  have hkept : MovedCutoff M
      (Progress.earlierCutoff (OrdMap.get? progress.voidCutoffs execution) cutoff)
      (Progress.earlierCutoff (OrdMap.get? cutoffs' execution) cutoff') := by
    have hexisting := hcutoffs execution
    revert hexisting
    generalize OrdMap.get? progress.voidCutoffs execution = existing
    generalize OrdMap.get? cutoffs' execution = existing'
    intro hexisting
    cases hexisting with
    | none => exact hcutoff
    | some hold =>
      unfold Progress.earlierCutoff
      dsimp only
      rw [if_congr (hM.order.lt_iff hcutoff.position hold.position) rfl rfl]
      split
      · exact hcutoff
      · exact hold
  refine ⟨hkept, fun other => ?_, rfl⟩
  unfold Progress.recordVoidCutoff
  dsimp only
  by_cases heq : other = execution
  · subst heq
    rw [OrdMap.get?_insert_self, OrdMap.get?_insert_self]
    exact .some hkept
  · rw [OrdMap.get?_insert_ne heq, OrdMap.get?_insert_ne heq]
    exact hcutoffs other

theorem pushVoidDecision (execution : ExecutionId) (reason : ExecutionVoidReason) :
    MovedProgress M (progress.pushVoidDecision execution reason)
      (progress'.pushVoidDecision execution reason) := by
  unfold Progress.pushVoidDecision
  rw [show progress'.decisions = progress.decisions by rw [h.rest]]
  split
  · exact h
  · exact h.push _

theorem voidLoser (hM : Moves M) (scope : VoidScope) {p' : HistoryPosition}
    (hp : M scope.cutoff p') {e e' : DurableExecution} (he : MovedExecution M e e') :
    MovedProgress M (progress.voidLoser scope e)
      (progress'.voidLoser { scope with cutoff := p' } e') := by
  have hcutoff : MovedCutoff M ⟨scope.cutoff, scope.reason⟩ ⟨p', scope.reason⟩ := ⟨hp, rfl⟩
  obtain ⟨hkept, hrecorded⟩ := h.recordVoidCutoff hM e.execution hcutoff
  unfold Progress.voidLoser
  rw [he.isActive, show e'.execution = e.execution by rw [he.rest]]
  dsimp only
  split
  · rw [← hkept.reason]
    exact hrecorded.pushVoidDecision _ _
  · exact hrecorded

theorem allocateNodeInstance (existing : Option NodeInstanceId) :
    Outcomes (fun r r' => r.1 = r'.1 ∧ MovedProgress M r.2 r'.2)
      (Progress.allocateNodeInstance existing progress)
      (Progress.allocateNodeInstance existing progress') := by
  unfold Progress.allocateNodeInstance
  cases existing with
  | some nodeInstance => exact .ok ⟨rfl, h⟩
  | none =>
    obtain ⟨cutoffs', rfl, hcutoffs⟩ := h.eq_moved
    refine .bind_same _ fun allocated => .bind_same _ fun next => ?_
    exact .ok ⟨rfl, hcutoffs, rfl⟩

theorem recordBoundary (boundary : ExecutionBoundary) :
    Outcomes (MovedProgress M) (Progress.recordBoundary boundary progress)
      (Progress.recordBoundary boundary progress') := by
  unfold Progress.recordBoundary
  rw [show progress'.boundary = progress.boundary by rw [h.rest]]
  cases progress.boundary with
  | none =>
    obtain ⟨cutoffs', rfl, hcutoffs⟩ := h.eq_moved
    exact .ok ⟨hcutoffs, rfl⟩
  | some current =>
    dsimp only
    split
    · exact .ok h
    · exact .error _

theorem allocateExecution :
    Outcomes (fun r r' => r.1 = r'.1 ∧ MovedProgress M r.2 r'.2)
      (Progress.allocateExecution progress) (Progress.allocateExecution progress') := by
  obtain ⟨cutoffs', rfl, hcutoffs⟩ := h.eq_moved
  refine .bind_same _ fun allocated => .bind_same _ fun next => ?_
  exact .ok ⟨rfl, hcutoffs, rfl⟩

theorem dispatch (request : DispatchRequest) :
    Outcomes (MovedProgress M) (Progress.dispatch request progress)
      (Progress.dispatch request progress') := by
  refine (h.allocateNodeInstance request.nodeInstance).bind fun r r' hr => ?_
  obtain ⟨nodeInstance, progress⟩ := r
  obtain ⟨_, progress'⟩ := r'
  obtain ⟨rfl, hallocated⟩ := hr
  refine (hallocated.recordBoundary request.boundary).bind fun _ _ hrecorded => ?_
  refine hrecorded.allocateExecution.bind fun r r' hr => ?_
  obtain ⟨execution, progress⟩ := r
  obtain ⟨_, progress'⟩ := r'
  obtain ⟨rfl, hprogress⟩ := hr
  exact .ok (hprogress.push _)

end MovedProgress

namespace Progress

instance : Std.Total loserBefore where
  total a b := by
    unfold loserBefore
    rcases lt_trichotomy a.dispatchPosition b.dispatchPosition with hlt | heq | hgt
    · exact .inl (.inl hlt)
    · rcases le_total a.execution.get b.execution.get with hle | hle
      · exact .inl (.inr ⟨heq, hle⟩)
      · exact .inr (.inr ⟨heq.symm, hle⟩)
    · exact .inr (.inl hgt)

instance : IsTrans DurableExecution loserBefore where
  trans a b c hab hbc := by
    unfold loserBefore at *
    rcases hab with hab | ⟨hab, hle⟩ <;> rcases hbc with hbc | ⟨hbc, hle'⟩
    · exact .inl (hab.trans hbc)
    · exact .inl (hbc ▸ hab)
    · exact .inl (hab ▸ hbc)
    · exact .inr ⟨hab.trans hbc, hle.trans hle'⟩

section

variable {l l' : List DurableExecution} (hM : Moves M) (h : MovedHistory M l l')
  (hdistinct : distinctBy DurableExecution.execution l = true)
include hM h hdistinct

theorem voidLosers_moved (scope : VoidScope) {p' : HistoryPosition} (hp : M scope.cutoff p')
    {progress progress' : Progress} (hprogress : MovedProgress M progress progress') :
    MovedProgress M (voidLosers l scope progress)
      (voidLosers l' { scope with cutoff := p' } progress') := by
  have hlosers : List.Forall₂ (MovedExecution M)
      ((l.filter (isLoser progress scope)).insertionSort loserBefore)
      ((l'.filter (isLoser progress' { scope with cutoff := p' })).insertionSort loserBefore) := by
    have hfilter : MovedHistory M (l.filter (isLoser progress scope))
        (l'.filter (isLoser progress' { scope with cutoff := p' })) := by
      refine h.filter fun e e' he => ?_
      unfold isLoser
      rw [he.isSettled, show e'.execution = e.execution by rw [he.rest],
        show e'.occurrence = e.occurrence by rw [he.rest],
        show progress'.consumedExecutions = progress.consumedExecutions by rw [hprogress.rest]]
    refine hfilter.insertionSort (fun a ha b hb hab hba => ?_) fun a a' b b' ha hb => ?_
    · have hid : a.execution.get = b.execution.get := by
        unfold loserBefore at hab hba
        rcases hab with hab | ⟨heq, hle⟩ <;> rcases hba with hba | ⟨heq', hle'⟩
        · exact absurd hab hba.asymm
        · exact absurd heq'.symm hab.ne
        · exact absurd heq.symm hba.ne
        · exact le_antisymm hle hle'
      exact eq_of_distinctBy hdistinct (List.mem_of_mem_filter ha) (List.mem_of_mem_filter hb)
        (PositiveIdentity.eq_of_get hid)
    · unfold loserBefore
      rw [hM.order.lt_iff ha.dispatched hb.dispatched, hM.order.eq_iff ha.dispatched hb.dispatched,
        show a'.execution = a.execution by rw [ha.rest],
        show b'.execution = b.execution by rw [hb.rest]]
  unfold voidLosers
  revert hlosers
  generalize (l.filter (isLoser progress scope)).insertionSort loserBefore = losers
  generalize (l'.filter (isLoser progress' { scope with cutoff := p' })).insertionSort
    loserBefore = losers'
  intro hlosers
  induction hlosers generalizing progress progress' with
  | nil => exact hprogress
  | cons he _ ih => exact ih (hprogress.voidLoser hM scope hp he)

theorem apply_moved {effect effect' : Effect} (heffect : MovedEffect M effect effect')
    {progress progress' : Progress} (hprogress : MovedProgress M progress progress') :
    Outcomes (MovedProgress M) (apply l effect progress) (apply l' effect' progress') := by
  cases heffect with
  | visit visit => exact .ok (hprogress.consume visit)
  | dispatch request => exact hprogress.dispatch request
  | void scope hp => exact .ok (voidLosers_moved hM h hdistinct scope hp hprogress)
  | joined record hp => exact .ok hprogress
  | itemTerminated record hp => exact .ok hprogress
  | decision decision => exact .ok (hprogress.push decision)

/-- **Moved effects make the same progress.** -/
theorem replay_moved {log log' : List Effect} (hlog : List.Forall₂ (MovedEffect M) log log')
    {progress progress' : Progress} (hprogress : MovedProgress M progress progress') :
    Outcomes (MovedProgress M) (replay l log progress) (replay l' log' progress') := by
  induction hlog generalizing progress progress' with
  | nil => exact .ok hprogress
  | cons heffect _ ih =>
    exact (apply_moved hM h hdistinct heffect hprogress).bind fun _ _ hnext => ih hnext

theorem voidKey_moved (decision : Decision) :
    M (voidKey l decision).1 (voidKey l' decision).1 ∧
      (voidKey l decision).2 = (voidKey l' decision).2 := by
  cases decision with
  | voidLoser execution reason =>
    refine ⟨?_, rfl⟩
    have hfound : Option.Rel (MovedExecution M) (l.find? fun e => e.execution == execution)
        (l'.find? fun e => e.execution == execution) := by
      refine h.find? (fun e e' he => by rw [he.rest]) ?_
      refine ((distinctBy_iff _ _).mp hdistinct).imp fun hne hboth => hne ?_
      rw [eq_of_beq hboth.1, eq_of_beq hboth.2]
    unfold voidKey
    dsimp only
    revert hfound
    generalize (l.find? fun e => e.execution == execution) = found
    generalize (l'.find? fun e => e.execution == execution) = found'
    intro hfound
    cases hfound with
    | none => exact hM.max
    | some he => exact he.dispatched
  | dispatch | continues | promote | terminal => exact ⟨hM.max, rfl⟩

theorem canonicalizeVoidDecisions_moved (decisions : List Decision) :
    canonicalizeVoidDecisions l' decisions = canonicalizeVoidDecisions l decisions := by
  have hbefore : ∀ a b, voidBefore l a b ↔ voidBefore l' a b := by
    intro a b
    obtain ⟨ha, haid⟩ := voidKey_moved hM h hdistinct a
    obtain ⟨hb, hbid⟩ := voidKey_moved hM h hdistinct b
    unfold voidBefore
    rw [hM.order.lt_iff ha hb, hM.order.eq_iff ha hb, haid, hbid]
  have hsorted : ∀ ds : List Decision,
      ds.insertionSort (voidBefore l) = ds.insertionSort (voidBefore l') := by
    intro ds
    refine List.forall₂_eq_eq_eq ▸ forall₂_insertionSort (R := Eq) (fun a b a' b' hab hab' => ?_)
      (List.forall₂_eq_eq_eq ▸ rfl)
    rw [hab, hab']
    exact hbefore b b'
  unfold canonicalizeVoidDecisions
  dsimp only
  rw [hsorted]

end

theorem historyConsumed_moved (hM : Moves M) {l l' : List DurableExecution}
    (h : MovedHistory M l l') {progress progress' : Progress}
    (hprogress : MovedProgress M progress progress') :
    historyConsumed l progress = historyConsumed l' progress' := by
  refine h.all_eq fun e e' he => ?_
  obtain ⟨p', s', rfl, -, hs⟩ := he.eq_moved
  rw [show progress'.consumedExecutions = progress.consumedExecutions by rw [hprogress.rest]]
  congr 1
  have hcutoff := hprogress.cutoffs e.execution
  revert hs hcutoff
  generalize OrdMap.get? progress.voidCutoffs e.execution = cutoff
  generalize OrdMap.get? progress'.voidCutoffs e.execution = cutoff'
  generalize e.state = s
  intro hs hcutoff
  cases hs with
  | active => rfl
  | settled hp outcome => rfl
  | voided hp reason =>
    cases hcutoff with
    | none => rfl
    | some hcutoff =>
      dsimp only
      rw [hcutoff.reason, decide_eq_decide.mpr (hM.order.lt_iff hcutoff.position hp)]

end Progress

/-! ## Reductions -/

theorem MovedStatus.projection {status status' : Status} (h : MovedStatus M status status') :
    status'.projection? = status.projection? := by
  cases h <;> rfl

theorem finishReduction_moved (hM : Moves M) {l l' : List DurableExecution}
    (h : MovedHistory M l l') (hdistinct : distinctBy DurableExecution.execution l = true)
    {status status' : Status} (hstatus : MovedStatus M status status')
    {progress progress' : Progress} (hprogress : MovedProgress M progress progress') :
    finishReduction l' status' progress' = finishReduction l status progress := by
  unfold finishReduction
  rw [show progress'.decisions = progress.decisions by rw [hprogress.rest],
    show progress'.boundary = progress.boundary by rw [hprogress.rest], hstatus.projection]
  dsimp only
  rw [Progress.canonicalizeVoidDecisions_moved hM h hdistinct]

theorem Engine.new_moved (hM : Moves M) (mode : ExecutionMode) (root : GraphNode)
    (input : ReductionInput) {history : List DurableExecution}
    (h : MovedHistory M input.executions history) :
    Outcomes (MovedEngine M) (Engine.new input root mode)
      (Engine.new { input with executions := history } root mode) := by
  unfold Engine.new
  dsimp only
  rw [← validateHistoryForMode_moved hM mode h]
  have hadmitted : input.executions.all (executionAdmitted input (collectExecutableDepths root)) =
      history.all (executionAdmitted { input with executions := history }
        (collectExecutableDepths root)) := by
    refine h.all_eq fun e e' he => ?_
    unfold executionAdmitted
    rw [he.rest]
  rw [← hadmitted]
  cases hvalid : validateHistoryForMode input.executions mode with
  | false => exact .error _
  | true =>
    cases collectOptionalPromotions root.descendants [] with
    | error error => exact .error _
    | ok optionalPromotions =>
      simp only [Bool.not_true, Bool.false_eq_true, if_false]
      split
      · exact .ok (@Engine.movedEngine M hM
          ⟨input.executions, collectMapDepths root, optionalPromotions, mode⟩
          ⟨history, collectMapDepths root, optionalPromotions, mode⟩ ⟨rfl, rfl⟩ rfl h hvalid)
      · exact .error _

/-- **A reduction sees the executions of a history and the order of their positions**: the same
executions, in any order and at moved positions, reduce to the same result. -/
theorem reduce_movedHistory (hM : Moves M) (mode : ExecutionMode) (root : GraphNode)
    (input : ReductionInput) {history : List DurableExecution}
    (h : MovedHistory M input.executions history) :
    reduce mode root { input with executions := history } = reduce mode root input := by
  have hnew := Engine.new_moved hM mode root input h
  unfold reduce
  dsimp only
  revert hnew
  generalize Engine.new { input with executions := history } root mode = new'
  cases hengine : Engine.new input root mode with
  | error error =>
    intro hnew
    cases hnew
    rfl
  | ok engine =>
    intro hnew
    cases hnew with
    | @ok _ engine' hmoved =>
      obtain ⟨-, -, -, -, hvalid, -⟩ := Engine.new_eq_ok hengine
      have hidentities := (Bool.and_eq_true_iff.mp (Bool.and_eq_true_iff.mp hvalid).1).1
      have hdistinct := (Bool.and_eq_true_iff.mp hidentities).1
      have hwalk : Related (MovedEffect M) (MovedResult M)
          (engine.walkRoot root input.initialInput) (engine'.walkRoot root input.initialInput) :=
        Engine.eval_moved hM hmoved root _ rootTraversal rootTraversal ⟨hM.max, rfl⟩
      have hinitial : MovedProgress M (initialProgress input)
          (initialProgress { input with executions := history }) := ⟨fun _ => .none, rfl⟩
      refine (Outcomes.eq ?_).symm
      refine (Progress.replay_moved hM h hdistinct hwalk.log hinitial).bind
        fun progress progress' hprogress => ?_
      refine hwalk.outcomes.bind fun r r' hr => ?_
      rw [← Progress.historyConsumed_moved hM h hprogress,
        finishReduction_moved hM h hdistinct hr.1 hprogress]
      split
      · exact .ok rfl
      · exact .error _

end Zeroshot
