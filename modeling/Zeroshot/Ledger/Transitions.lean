import Zeroshot.Ledger.State
import Zeroshot.Lib.Journal

set_option autoImplicit false

/-!
# Transitions of the run state machine

What an accepted event does to a snapshot (`applyEvent_eq_ok`): the conditions under which each
kind of event is accepted and the snapshot it leaves (`Changes`). Every invariant of the ledger is
read off this relation, not off the handlers.

Cursors of sequence numbers below `2 ^ 64` are read back as the numbers they were made from.
-/

namespace Zeroshot.Ledger

/-! ## Cursors -/

theorem le_ofDigitChars (digits : List Char) (value : Nat) :
    value ≤ Nat.ofDigitChars 10 digits value := by
  rw [Nat.ofDigitChars_eq_ofDigitChars_zero]
  have : 0 < 10 ^ digits.length := Nat.pow_pos (by decide)
  calc value ≤ 10 ^ digits.length * value := Nat.le_mul_of_pos_left value this
    _ ≤ _ := Nat.le_add_right _ _

theorem parseDigits_eq {digits : List Char} (hdigits : ∀ c ∈ digits, c.isDigit = true)
    {value : Nat} (hsmall : Nat.ofDigitChars 10 digits value < 2 ^ 64) :
    parseDigits digits value = some (Nat.ofDigitChars 10 digits value) := by
  induction digits generalizing value with
  | nil => rfl
  | cons c digits ih =>
    rw [Nat.ofDigitChars_cons] at hsmall ⊢
    have hnext : 10 * value + (c.toNat - '0'.toNat) < 2 ^ 64 :=
      Nat.lt_of_le_of_lt (le_ofDigitChars digits _) hsmall
    rw [parseDigits, if_pos (hdigits c List.mem_cons_self)]
    simp only [if_pos hnext]
    exact ih (fun c hc => hdigits c (List.mem_cons_of_mem _ hc)) hsmall

theorem ofDigitChars_of_parseDigits {digits : List Char} {value parsed : Nat}
    (h : parseDigits digits value = some parsed) : parsed = Nat.ofDigitChars 10 digits value := by
  induction digits generalizing value with
  | nil =>
    cases h
    rfl
  | cons c digits ih =>
    rw [Nat.ofDigitChars_cons]
    unfold parseDigits at h
    by_cases hdigit : c.isDigit = true
    · rw [if_pos hdigit] at h
      by_cases hnext : 10 * value + (c.toNat - '0'.toNat) < 2 ^ 64
      · simp only [if_pos hnext] at h
        exact ih h
      · simp only [if_neg hnext] at h
        cases h
    · rw [if_neg hdigit] at h
      cases h

theorem isDigit_toDigits (n : Nat) : ∀ c ∈ Nat.toDigits 10 n, c.isDigit = true :=
  fun _ hc => Nat.isDigit_of_mem_toDigits (by decide) (by decide) hc

/-- The digits of a number start without a sign. -/
theorem parseU64_toDigits (n : Nat) :
    parseU64 (Nat.toDigits 10 n) = parseDigits (Nat.toDigits 10 n) 0 := by
  have hdigits := isDigit_toDigits n
  unfold parseU64
  split
  · rename_i hnil
    have := Nat.length_toDigits_pos (b := 10) (n := n)
    rw [hnil] at this
    cases this
  · rename_i hplus
    exact absurd (hdigits '+' (by rw [hplus]; exact List.mem_cons_self)) (by decide)
  · rename_i hplus
    exact absurd (hdigits '+' (by rw [hplus]; exact List.mem_cons_self)) (by decide)
  · rfl

theorem cursorFor_toList (n : Nat) :
    (cursorFor n).asStr.toList = 'v' :: '2' :: ':' :: Nat.toDigits 10 n := by
  rw [cursorFor, String.toList_append]
  change _ ++ (Nat.repr n).toList = _
  rw [Nat.repr_eq_ofList_toDigits, String.toList_ofList]
  simp

theorem cursorSequence_cursorFor {n : Nat} (h : n < 2 ^ 64) :
    cursorSequence (cursorFor n) = .ok n := by
  have hparse : parseDigits (Nat.toDigits 10 n) 0 = some n := by
    rw [parseDigits_eq (isDigit_toDigits n) (by rwa [Nat.ofDigitChars_ten_toDigits]),
      Nat.ofDigitChars_ten_toDigits]
  rw [cursorSequence, cursorFor_toList]
  simp only [parseU64_toDigits, hparse]

theorem eq_of_cursorSequence_cursorFor {n m : Nat} (h : cursorSequence (cursorFor n) = .ok m) :
    m = n := by
  rw [cursorSequence, cursorFor_toList] at h
  simp only [parseU64_toDigits] at h
  cases hparse : parseDigits (Nat.toDigits 10 n) 0 with
  | none =>
    rw [hparse] at h
    cases h
  | some parsed =>
    rw [hparse] at h
    cases h
    rw [ofDigitChars_of_parseDigits hparse, Nat.ofDigitChars_ten_toDigits]

theorem cursorFor_inj {n m : Nat} (h : cursorFor n = cursorFor m) : n = m := by
  have hdigits := congrArg (fun cursor => cursor.asStr.toList) h
  simp only [cursorFor_toList, List.cons.injEq, true_and] at hdigits
  have hvalue := congrArg (fun digits => Nat.ofDigitChars 10 digits 0) hdigits
  simpa only [Nat.ofDigitChars_ten_toDigits] using hvalue

theorem initialCursor_eq : initialCursor = cursorFor 0 := rfl

/-! ## Handlers that return -/

theorem runs_require {condition : RunSnapshot → Bool} {message : String} {u : Unit}
    {s s' : RunSnapshot} :
    require condition message s = .ok u s' ↔ condition s = true ∧ s = s' := by
  unfold require
  simp only [runs_bind, runs_get]
  constructor
  · rintro ⟨_, _, ⟨rfl, rfl⟩, h⟩
    split at h
    · rename_i hc
      exact ⟨hc, (runs_pure.mp h).2⟩
    · exact absurd h runs_throw
  · rintro ⟨hc, rfl⟩
    refine ⟨_, _, ⟨rfl, rfl⟩, ?_⟩
    rw [if_pos hc]
    rfl

theorem runs_require_bind {condition : RunSnapshot → Bool} {message : String} {β : Type}
    {rest : Unit → Mutation β} {b : β} {s s' : RunSnapshot} :
    (require condition message >>= rest) s = .ok b s' ↔
      condition s = true ∧ rest () s = .ok b s' := by
  rw [runs_bind]
  constructor
  · rintro ⟨_, _, hrequire, hrest⟩
    obtain ⟨hguard, rfl⟩ := runs_require.mp hrequire
    exact ⟨hguard, hrest⟩
  · rintro ⟨hguard, hrest⟩
    exact ⟨(), s, runs_require.mpr ⟨hguard, rfl⟩, hrest⟩

/-- The change of a snapshot a log or a usage record makes: counters, failure diagnostics, and the
mark of a dispatched execution. -/
structure Observed (s s' : RunSnapshot) : Prop where
  rest : s' = { s with
    executions := s'.executions
    tokenUsage := s'.tokenUsage
    failureContext := s'.failureContext }
  executions : s'.executions = s.executions ∨ ∃ id node,
    OrdMap.get? s.executions id = some node ∧
      s'.executions = OrdMap.insert id { node with failureDiagnostic := true } s.executions

/-- What an accepted event does, apart from moving the cursor. -/
inductive Changes (n : Nat) : RunEvent → RunSnapshot → RunSnapshot → Prop
  | priorExecution {s : RunSnapshot} {execution : DurableExecution}
      (admitted : s.phase = .admitted) (settled : execution.isActive = false)
      (later : ∀ previous, s.executionSeed.getLast? = some previous →
        previous.execution.get < execution.execution.get ∧
          previous.dispatchPosition < execution.dispatchPosition) :
      Changes n (.priorExecution execution) s
        { s with executionSeed := s.executionSeed ++ [execution] }
  | runStarted {s : RunSnapshot} (admitted : s.phase = .admitted) :
      Changes n .runStarted s { s with phase := .running }
  | nodeStarted {s : RunSnapshot} {reference : ExecutionRef} {occurrence : StructuralOccurrence}
      {attempt : PositiveInteger} {input : Value} (running : s.phase = .running)
      (primary : s.primaryGraph = none) (run : s.runId = reference.runId)
      (force : s.forceStopRequested = false)
      (fresh : OrdMap.get? s.executions reference.execution = none)
      (unseeded : ∀ prior ∈ s.executionSeed, prior.execution ≠ reference.execution) :
      Changes n (.nodeStarted reference occurrence attempt input) s
        { s with
          executions := OrdMap.insert reference.execution
            ⟨reference, occurrence, attempt, input, cursorFor n, .active, false⟩ s.executions }
  | nodeCompleted {s : RunSnapshot} {completion : NodeCompletion} {node : NodeSnapshot}
      (run : s.runId = completion.reference.runId)
      (artifacts : hasArtifacts completion.outcome = false)
      (valid : completion.outcome.isValid = true)
      (dispatched : OrdMap.get? s.executions completion.reference.execution = some node)
      (reference : node.reference = completion.reference) (active : node.state = .active) :
      Changes n (.nodeCompleted completion) s
        { s with
          executions := OrdMap.insert completion.reference.execution
            { node with state := .completed (cursorFor n) completion.outcome } s.executions }
  | executionVoided {s : RunSnapshot} {reference : ExecutionRef} {reason : ExecutionVoidReason}
      {node : NodeSnapshot} (run : s.runId = reference.runId)
      (dispatched : OrdMap.get? s.executions reference.execution = some node)
      (same : node.reference = reference) (active : node.state = .active) :
      Changes n (.executionVoided reference reason) s
        { s with
          executions := OrdMap.insert reference.execution
            { node with state := .voided (cursorFor n) reason } s.executions }
  | observed {s s' : RunSnapshot} {event : RunEvent}
      (observation : event matches .safeLog _ _ _ _ _ | .tokenUsageObserved _ _ |
        .runTokenUsageObserved _) (change : Observed s s') : Changes n event s s'
  | primaryGraphCompleted {s : RunSnapshot} {result : TerminalResult} {auxiliaryPending : Bool}
      {deliveryExecution : Option ExecutionId}
      (started : s.phase = .running ∨ s.phase = .stopping) (primary : s.primaryGraph = none)
      (idle : s.activeExecutions = [])
      (evidence : ∀ execution, deliveryExecution = some execution →
        (s.executionOutput execution).isSome = true) :
      Changes n (.primaryGraphCompleted result auxiliaryPending deliveryExecution) s
        { s with primaryGraph := some ⟨result, auxiliaryPending, deliveryExecution⟩ }
  | forceStopRequested {s : RunSnapshot} (force : s.forceStopRequested = false) :
      Changes n .forceStopRequested s { s with forceStopRequested := true, phase := .stopping }
  | terminal {s : RunSnapshot} {result : TerminalResult} (idle : s.activeExecutions = []) :
      Changes n (.terminal result) s
        { s with
          primaryGraph := s.primaryGraph.map fun primary =>
            { primary with auxiliaryPending := false }
          terminal := some result
          phase := .finished }

/-! ## Accepted events -/

theorem runs_activeNode {reference : ExecutionRef} {node : NodeSnapshot} {s s' : RunSnapshot}
    (h : activeNode reference s = .ok node s') :
    s = s' ∧ OrdMap.get? s.executions reference.execution = some node ∧
      node.reference = reference ∧ node.state = .active := by
  unfold activeNode at h
  obtain ⟨_, _, hget, h⟩ := runs_bind.mp h
  obtain ⟨rfl, rfl⟩ := runs_get.mp hget
  cases hfound : OrdMap.get? s.executions reference.execution with
  | none =>
    rw [hfound] at h
    exact absurd h runs_throw
  | some found =>
    rw [hfound] at h
    dsimp only at h
    split at h
    · exact absurd h runs_throw
    · rename_i hreference
      split at h
      · exact absurd h runs_throw
      · rename_i hactive
        obtain ⟨rfl, rfl⟩ := runs_pure.mp h
        refine ⟨rfl, rfl, not_not.mp hreference, ?_⟩
        rw [Bool.not_eq_true, Bool.not_eq_false'] at hactive
        unfold NodeSnapshot.isActive at hactive
        split at hactive
        · assumption
        · cases hactive

theorem runs_settleNode {reference : ExecutionRef} {state : NodeState} {u : Unit}
    {s s' : RunSnapshot} (h : settleNode reference state s = .ok u s') :
    ∃ node, OrdMap.get? s.executions reference.execution = some node ∧
      node.reference = reference ∧ node.state = .active ∧
      s' = { s with
        executions := OrdMap.insert reference.execution { node with state } s.executions } := by
  obtain ⟨node, t, hnode, hset⟩ := runs_bind.mp h
  obtain ⟨rfl, hfound, hreference, hactive⟩ := runs_activeNode hnode
  exact ⟨node, hfound, hreference, hactive, runs_modify.mp hset⟩

theorem Observed.refl (s : RunSnapshot) : Observed s s := ⟨rfl, .inl rfl⟩

/-- A mutation that changes only the counters. -/
def OnlyUsage (s s' : RunSnapshot) : Prop := s' = { s with tokenUsage := s'.tokenUsage }

theorem OnlyUsage.trans {s t u : RunSnapshot} (h : OnlyUsage s t) (h' : OnlyUsage t u) :
    OnlyUsage s u := by
  unfold OnlyUsage at *
  rw [h', h]

theorem OnlyUsage.observed {s s' : RunSnapshot} (h : OnlyUsage s s') : Observed s s' := by
  unfold OnlyUsage at h
  rw [h]
  exact ⟨rfl, .inl rfl⟩

theorem runs_setTokenUsage {usage : TokenUsage} {u : Unit} {s s' : RunSnapshot}
    (h : setTokenUsage usage s = .ok u s') : OnlyUsage s s' := by
  rw [runs_modify.mp h]
  rfl

theorem runs_addTokens {left right total : TokenCount} {s s' : RunSnapshot}
    (h : addTokens left right s = .ok total s') : s' = s := by
  unfold addTokens at h
  cases hadd : left.checkedAdd right with
  | none =>
    rw [hadd] at h
    exact absurd h runs_throw
  | some sum =>
    rw [hadd] at h
    exact (runs_pure.mp h).2.symm

theorem runs_addOptionalTokens {left right total : Option TokenCount} {s s' : RunSnapshot}
    (h : addOptionalTokens left right s = .ok total s') : s' = s := by
  cases left with
  | none => exact (runs_pure.mp h).2.symm
  | some left =>
    cases right with
    | none => exact (runs_pure.mp h).2.symm
    | some right =>
      obtain ⟨_, _, hadd, hpure⟩ := runs_bind.mp h
      rw [← (runs_pure.mp hpure).2, runs_addTokens hadd]

theorem runs_addUsage {usage : Option TokenUsageDelta} {u : Unit} {s s' : RunSnapshot}
    (h : addUsage usage s = .ok u s') : OnlyUsage s s' := by
  unfold addUsage at h
  obtain ⟨_, _, hget, h⟩ := runs_bind.mp h
  obtain ⟨rfl, rfl⟩ := runs_get.mp hget
  cases htotal : s.tokenUsage with
  | none =>
    rw [htotal] at h
    cases usage with
    | none => exact runs_setTokenUsage h
    | some usage => exact runs_setTokenUsage h
  | some total =>
    rw [htotal] at h
    cases usage with
    | none => exact runs_setTokenUsage h
    | some usage =>
      -- four counters, each stored before the next is added
      obtain ⟨_, _, h₁, h⟩ := runs_bind.mp h
      obtain ⟨_, _, hs₁, h⟩ := runs_bind.mp h
      obtain ⟨_, _, h₂, h⟩ := runs_bind.mp h
      obtain ⟨_, _, hs₂, h⟩ := runs_bind.mp h
      obtain ⟨_, _, h₃, h⟩ := runs_bind.mp h
      obtain ⟨_, _, hs₃, h⟩ := runs_bind.mp h
      obtain ⟨_, _, h₄, hs₄⟩ := runs_bind.mp h
      cases runs_addTokens h₁
      cases runs_addTokens h₂
      cases runs_addOptionalTokens h₃
      cases runs_addOptionalTokens h₄
      exact (((runs_setTokenUsage hs₁).trans (runs_setTokenUsage hs₂)).trans
        (runs_setTokenUsage hs₃)).trans (runs_setTokenUsage hs₄)

theorem runs_updateFailureContext {update : FailureContext → FailureContext} {u : Unit}
    {s s' : RunSnapshot} (h : updateFailureContext update s = .ok u s') :
    s' = { s with failureContext := s'.failureContext } := by
  rw [runs_modify.mp h]

theorem runs_diagnosticExecution {wire : Wire} {execution : Option ExecutionId}
    {named : Option ActiveExecution} {s s' : RunSnapshot}
    (h : diagnosticExecution wire execution s = .ok named s') : Observed s s' := by
  cases execution with
  | none =>
    rw [← (runs_pure.mp h).2]
    exact Observed.refl s
  | some id =>
    unfold diagnosticExecution at h
    obtain ⟨_, _, hget, h⟩ := runs_bind.mp h
    obtain ⟨rfl, rfl⟩ := runs_get.mp hget
    cases hfound : OrdMap.get? s.executions id with
    | none =>
      rw [hfound] at h
      exact absurd h runs_throw
    | some node =>
      rw [hfound] at h
      obtain ⟨_, _, hset, hpure⟩ := runs_bind.mp h
      rw [← (runs_pure.mp hpure).2, runs_modify.mp hset]
      exact ⟨rfl, .inr ⟨id, node, hfound, rfl⟩⟩

theorem runs_applySafeLog {wire : Wire} {execution : Option ExecutionId} {stream : SafeLogStream}
    {line : SafeLogLine} {diagnostic : Option FailureDiagnosticKind} {n : Nat} {u : Unit}
    {s s' : RunSnapshot}
    (h : applySafeLog wire execution stream line diagnostic n s = .ok u s') : Observed s s' := by
  unfold applySafeLog at h
  obtain ⟨-, h⟩ := runs_require_bind.mp h
  cases diagnostic with
  | none =>
    rw [← (runs_pure.mp h).2]
    exact Observed.refl _
  | some kind =>
    obtain ⟨-, h⟩ := runs_require_bind.mp h
    cases kind with
    | incomplete =>
      rw [runs_updateFailureContext h]
      exact ⟨rfl, .inl rfl⟩
    | failure =>
      obtain ⟨_, t, hnamed, h⟩ := runs_bind.mp h
      have hobserved := runs_diagnosticExecution hnamed
      rw [runs_updateFailureContext h]
      refine ⟨?_, hobserved.executions⟩
      rw [hobserved.rest]

theorem runs_applyTokenUsage {execution : ExecutionId} {usage : Option TokenUsageDelta} {u : Unit}
    {s s' : RunSnapshot} (h : applyTokenUsage execution usage s = .ok u s') : OnlyUsage s s' := by
  unfold applyTokenUsage at h
  obtain ⟨_, _, hactive, h⟩ := runs_bind.mp h
  unfold requireActiveExecution at hactive
  obtain ⟨_, _, hget, hactive⟩ := runs_bind.mp hactive
  obtain ⟨rfl, rfl⟩ := runs_get.mp hget
  cases hfound : OrdMap.get? s.executions execution with
  | none =>
    rw [hfound] at hactive
    exact absurd hactive runs_throw
  | some node =>
    rw [hfound] at hactive
    dsimp only at hactive
    split at hactive
    · cases (runs_pure.mp hactive).2
      exact runs_addUsage h
    · exact absurd hactive runs_throw

/-- What an accepted event of each kind does. -/
theorem applyEventKind_changes {wire : Wire} {event : RunEvent} {n : Nat} {u : Unit}
    {s s' : RunSnapshot} (h : applyEventKind wire event n s = .ok u s') : Changes n event s s' := by
  cases event with
  | priorExecution execution =>
    obtain ⟨hguard, h⟩ := runs_require_bind.mp h
    rw [runs_modify.mp h]
    simp only [Bool.and_eq_true, decide_eq_true_eq, Bool.not_eq_true'] at hguard
    refine .priorExecution hguard.1.1 hguard.1.2 fun previous hprevious => ?_
    have hlater := hguard.2
    rw [hprevious, Option.any_some, Bool.or_eq_false_iff, decide_eq_false_iff_not,
      decide_eq_false_iff_not, not_le, not_le] at hlater
    exact hlater
  | runStarted =>
    obtain ⟨hguard, h⟩ := runs_require_bind.mp h
    rw [runs_modify.mp h]
    exact .runStarted (of_decide_eq_true hguard)
  | nodeStarted reference occurrence attempt input =>
    obtain ⟨hrunning, h⟩ := runs_require_bind.mp h
    obtain ⟨hrun, h⟩ := runs_require_bind.mp h
    obtain ⟨_, _, hdispatch, hset⟩ := runs_bind.mp h
    obtain ⟨hforce, hdispatch⟩ := runs_require_bind.mp hdispatch
    obtain ⟨hnew, rfl⟩ := runs_require.mp hdispatch
    rw [runs_modify.mp hset]
    simp only [Bool.and_eq_true, decide_eq_true_eq, Bool.not_eq_true',
      Option.isNone_iff_eq_none] at hrunning hrun hforce hnew
    refine .nodeStarted hrunning.1 hrunning.2 hrun hforce ?_ fun prior hprior => ?_
    · rw [← Option.not_isSome_iff_eq_none, Bool.not_eq_true]
      exact hnew.1
    · intro heq
      exact List.any_eq_false.mp hnew.2 prior hprior (beq_iff_eq.mpr heq)
  | nodeCompleted completion =>
    obtain ⟨hrun, h⟩ := runs_require_bind.mp h
    obtain ⟨hartifacts, h⟩ := runs_require_bind.mp h
    obtain ⟨hvalid, h⟩ := runs_require_bind.mp h
    obtain ⟨node, hfound, hreference, hactive, rfl⟩ := runs_settleNode h
    exact .nodeCompleted (of_decide_eq_true hrun) ((Bool.not_eq_true' _).mp hartifacts) hvalid
      hfound hreference hactive
  | executionVoided reference reason =>
    obtain ⟨hrun, h⟩ := runs_require_bind.mp h
    obtain ⟨node, hfound, hreference, hactive, rfl⟩ := runs_settleNode h
    exact .executionVoided (of_decide_eq_true hrun) hfound hreference hactive
  | safeLog execution timestamp stream line diagnostic =>
    exact .observed rfl (runs_applySafeLog h)
  | tokenUsageObserved execution usage => exact .observed rfl (runs_applyTokenUsage h).observed
  | runTokenUsageObserved usage => exact .observed rfl (runs_addUsage h).observed
  | primaryGraphCompleted result auxiliaryPending deliveryExecution =>
    obtain ⟨hstarted, h⟩ := runs_require_bind.mp h
    obtain ⟨hprimary, h⟩ := runs_require_bind.mp h
    obtain ⟨hidle, h⟩ := runs_require_bind.mp h
    obtain ⟨hevidence, h⟩ := runs_require_bind.mp h
    rw [runs_modify.mp h]
    simp only [Bool.or_eq_true, decide_eq_true_eq] at hstarted
    refine .primaryGraphCompleted hstarted (Option.isNone_iff_eq_none.mp hprimary)
      (List.isEmpty_iff.mp hidle) ?_
    rintro execution rfl
    exact hevidence
  | forceStopRequested =>
    obtain ⟨hforce, h⟩ := runs_require_bind.mp h
    rw [runs_modify.mp h]
    exact .forceStopRequested ((Bool.not_eq_true' _).mp hforce)
  | terminal result =>
    obtain ⟨hidle, h⟩ := runs_require_bind.mp h
    rw [runs_modify.mp h]
    exact .terminal (List.isEmpty_iff.mp hidle)

/-- When an event is accepted, and what it leaves. -/
theorem applyEvent_eq_ok {wire : Wire} {event : RunEvent} {n : Nat} {u : Unit}
    {s s' : RunSnapshot} (h : applyEvent wire event n s = .ok u s') :
    s.terminal = none ∧ validateEvent wire event = true ∧
      ∃ t, Changes n event s t ∧ s' = { t with cursor := cursorFor n } := by
  unfold applyEvent at h
  obtain ⟨hterminal, h⟩ := runs_require_bind.mp h
  obtain ⟨_, _, hvalid, hrest⟩ := runs_bind.mp h
  unfold requireBounded at hvalid
  split at hvalid
  · rename_i hbounded
    obtain ⟨-, rfl⟩ := runs_pure.mp hvalid
    obtain ⟨_, t, hkind, hcursor⟩ := runs_bind.mp hrest
    exact ⟨Option.isNone_iff_eq_none.mp hterminal, hbounded, t, applyEventKind_changes hkind,
      runs_modify.mp hcursor⟩
  · exact absurd hvalid runs_throw

/-- The snapshot after an event, when it is accepted. -/
def step (wire : Wire) (event : RunEvent) (sequence : Nat) (snapshot : RunSnapshot) :
    Option RunSnapshot :=
  match applyEvent wire event sequence snapshot with
  | .ok _ snapshot => some snapshot
  | .error _ _ => none

theorem step_eq_some {wire : Wire} {event : RunEvent} {n : Nat} {s s' : RunSnapshot} :
    step wire event n s = some s' ↔ applyEvent wire event n s = .ok () s' := by
  unfold step
  cases applyEvent wire event n s with
  | ok u t => simp
  | error e t => simp

end Zeroshot.Ledger
