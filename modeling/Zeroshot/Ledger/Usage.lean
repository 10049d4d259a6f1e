import Zeroshot.Ledger.Lifecycle

set_option autoImplicit false

/-!
# Token usage and the order of its observations

The ledger adds up the usage its runs observe. An observation without numbers marks the total as
incomplete; a counter that one delta leaves out is left out of the total. The sums do not depend on
the order, but the cache counters of the total do: when the first observation of a run has no
numbers, both are left out for good, while the same observation later leaves them alone.
`usage_order_free_iff` says exactly when that difference can be seen.
-/

namespace Zeroshot.Ledger

/-! ## One observation -/

/-- The sum `add_optional_tokens` stores, `none` outside when it overflows. -/
def sumOptional : Option TokenCount → Option TokenCount → Option (Option TokenCount)
  | some left, some right => (left.checkedAdd right).map some
  | _, _ => some none

/-- The total `add_usage` leaves after one observation. -/
def combine : Option TokenUsage → Option TokenUsageDelta → Option TokenUsage
  | none, some usage => some ⟨usage.inputTokens, usage.outputTokens, usage.cacheReadInputTokens,
      usage.cacheCreationInputTokens, true⟩
  | none, none => some ⟨TokenCount.zero, TokenCount.zero, none, none, false⟩
  | some total, some usage => do
    let input ← total.inputTokens.checkedAdd usage.inputTokens
    let output ← total.outputTokens.checkedAdd usage.outputTokens
    let read ← sumOptional total.cacheReadInputTokens usage.cacheReadInputTokens
    let creation ← sumOptional total.cacheCreationInputTokens usage.cacheCreationInputTokens
    some ⟨input, output, read, creation, total.complete⟩
  | some total, none => some { total with complete := false }

theorem runs_addTokens_iff {left right total : TokenCount} {s s' : RunSnapshot} :
    addTokens left right s = .ok total s' ↔ left.checkedAdd right = some total ∧ s = s' := by
  unfold addTokens
  cases hadd : left.checkedAdd right with
  | none => simp [runs_throw]
  | some sum => simp [runs_pure]

theorem runs_addOptionalTokens_iff {left right total : Option TokenCount} {s s' : RunSnapshot} :
    addOptionalTokens left right s = .ok total s' ↔
      sumOptional left right = some total ∧ s = s' := by
  cases left with
  | none => simp [addOptionalTokens, sumOptional, runs_pure]
  | some left =>
    cases right with
    | none => simp [addOptionalTokens, sumOptional, runs_pure]
    | some right =>
      simp only [addOptionalTokens, sumOptional, runs_bind, runs_addTokens_iff, runs_pure,
        Option.map_eq_some_iff]
      constructor
      · rintro ⟨sum, t, ⟨hsum, rfl⟩, htotal, rfl⟩
        exact ⟨⟨sum, hsum, htotal⟩, rfl⟩
      · rintro ⟨⟨sum, hsum, htotal⟩, rfl⟩
        exact ⟨sum, s, ⟨hsum, rfl⟩, htotal, rfl⟩

/-- A total and a delta combine when all four sums do. -/
theorem combine_some_some {total total' : TokenUsage} {usage : TokenUsageDelta} :
    combine (some total) (some usage) = some total' ↔
      total.inputTokens.checkedAdd usage.inputTokens = some total'.inputTokens ∧
      total.outputTokens.checkedAdd usage.outputTokens = some total'.outputTokens ∧
      sumOptional total.cacheReadInputTokens usage.cacheReadInputTokens =
        some total'.cacheReadInputTokens ∧
      sumOptional total.cacheCreationInputTokens usage.cacheCreationInputTokens =
        some total'.cacheCreationInputTokens ∧
      total.complete = total'.complete := by
  simp only [combine, Option.bind_eq_bind, Option.bind_eq_some_iff, Option.some.injEq]
  constructor
  · rintro ⟨input, hinput, output, houtput, read, hread, creation, hcreation, rfl⟩
    exact ⟨hinput, houtput, hread, hcreation, rfl⟩
  · rintro ⟨hinput, houtput, hread, hcreation, hcomplete⟩
    exact ⟨_, hinput, _, houtput, _, hread, _, hcreation, by rw [hcomplete]⟩

/-- `addUsage` stores what `combine` computes and changes nothing else. -/
theorem runs_addUsage_iff {usage : Option TokenUsageDelta} {s s' : RunSnapshot} :
    addUsage usage s = .ok () s' ↔
      ∃ total, combine s.tokenUsage usage = some total ∧
        s' = { s with tokenUsage := some total } := by
  have hget : addUsage usage s = .ok () s' ↔ _ := runs_bind
  rw [hget]
  simp only [runs_get]
  cases htotal : s.tokenUsage with
  | none =>
    cases usage with
    | none => simp [combine, setTokenUsage, runs_modify, htotal]
    | some usage => simp [combine, setTokenUsage, runs_modify, htotal]
  | some total =>
    cases usage with
    | none => simp [combine, setTokenUsage, runs_modify, htotal]
    | some usage =>
      constructor
      · rintro ⟨_, _, ⟨rfl, rfl⟩, h⟩
        rw [htotal] at h
        -- four counters, each stored before the next is added
        obtain ⟨input, _, hadd₁, h⟩ := runs_bind.mp h
        obtain ⟨_, _, hset₁, h⟩ := runs_bind.mp h
        obtain ⟨output, _, hadd₂, h⟩ := runs_bind.mp h
        obtain ⟨_, _, hset₂, h⟩ := runs_bind.mp h
        obtain ⟨read, _, hadd₃, h⟩ := runs_bind.mp h
        obtain ⟨_, _, hset₃, h⟩ := runs_bind.mp h
        obtain ⟨creation, _, hadd₄, h⟩ := runs_bind.mp h
        obtain ⟨hinput, rfl⟩ := runs_addTokens_iff.mp hadd₁
        obtain ⟨houtput, rfl⟩ := runs_addTokens_iff.mp hadd₂
        obtain ⟨hread, rfl⟩ := runs_addOptionalTokens_iff.mp hadd₃
        obtain ⟨hcreation, rfl⟩ := runs_addOptionalTokens_iff.mp hadd₄
        refine ⟨⟨input, output, read, creation, total.complete⟩, ?_, ?_⟩
        · exact combine_some_some.mpr ⟨hinput, houtput, hread, hcreation, rfl⟩
        · rw [runs_modify.mp h, runs_modify.mp hset₃, runs_modify.mp hset₂, runs_modify.mp hset₁]
      · rintro ⟨total', hcombine, rfl⟩
        obtain ⟨hinput, houtput, hread, hcreation, hcomplete⟩ := combine_some_some.mp hcombine
        refine ⟨s, s, ⟨rfl, rfl⟩, ?_⟩
        rw [htotal]
        refine runs_bind.mpr ⟨_, _, runs_addTokens_iff.mpr ⟨hinput, rfl⟩, ?_⟩
        refine runs_bind.mpr ⟨(), _, runs_modify.mpr rfl, ?_⟩
        refine runs_bind.mpr ⟨_, _, runs_addTokens_iff.mpr ⟨houtput, rfl⟩, ?_⟩
        refine runs_bind.mpr ⟨(), _, runs_modify.mpr rfl, ?_⟩
        refine runs_bind.mpr ⟨_, _, runs_addOptionalTokens_iff.mpr ⟨hread, rfl⟩, ?_⟩
        refine runs_bind.mpr ⟨(), _, runs_modify.mpr rfl, ?_⟩
        refine runs_bind.mpr ⟨_, _, runs_addOptionalTokens_iff.mpr ⟨hcreation, rfl⟩, ?_⟩
        refine runs_modify.mpr ?_
        rw [hcomplete]

/-! ## Observations -/

/-- A usage record: the execution that reports it, or none for the agent of the whole run. -/
structure Observation where
  source : Option ExecutionId
  usage : Option TokenUsageDelta
  deriving DecidableEq, Repr

/-- The event that records an observation. -/
def Observation.event (observation : Observation) : RunEvent :=
  match observation.source with
  | some execution => .tokenUsageObserved execution observation.usage
  | none => .runTokenUsageObserved observation.usage

/-- The reporting execution is active and the event is within bounds. -/
structure Recordable (wire : Wire) (s : RunSnapshot) (observation : Observation) : Prop where
  bounded : validateEvent wire observation.event = true
  active : ∀ id, observation.source = some id →
    ∃ node, OrdMap.get? s.executions id = some node ∧ node.isActive = true

theorem runs_requireActiveExecution {execution : ExecutionId} {s s' : RunSnapshot} :
    requireActiveExecution execution s = .ok () s' ↔
      (∃ node, OrdMap.get? s.executions execution = some node ∧ node.isActive = true) ∧
        s = s' := by
  have hget : requireActiveExecution execution s = .ok () s' ↔ _ := runs_bind
  rw [hget]
  simp only [runs_get]
  cases hfound : OrdMap.get? s.executions execution with
  | none => simp [hfound, runs_throw]
  | some node =>
    cases hactive : node.isActive with
    | false => simp [hfound, hactive, runs_throw]
    | true => simp [hfound, hactive, runs_pure]

/-- Recording an observation combines it into the total. -/
theorem step_observation {wire : Wire} {o : Observation} {n : Nat} {s s' : RunSnapshot} :
    step wire o.event n s = some s' ↔
      s.terminal = none ∧ Recordable wire s o ∧
        ∃ total, combine s.tokenUsage o.usage = some total ∧
          s' = { s with tokenUsage := some total, cursor := cursorFor n } := by
  have hkind : ∀ t, applyEventKind wire o.event n s = .ok () t ↔
      (∀ id, o.source = some id →
        ∃ node, OrdMap.get? s.executions id = some node ∧ node.isActive = true) ∧
      ∃ total, combine s.tokenUsage o.usage = some total ∧
        t = { s with tokenUsage := some total } := by
    intro t
    obtain ⟨source, usage⟩ := o
    cases source with
    | none => simp [Observation.event, applyEventKind, runs_addUsage_iff]
    | some id =>
      constructor
      · intro h
        obtain ⟨_, _, hrequire, h⟩ := runs_bind.mp h
        obtain ⟨hactive, rfl⟩ := runs_requireActiveExecution.mp hrequire
        refine ⟨fun id' hid => ?_, runs_addUsage_iff.mp h⟩
        cases hid
        exact hactive
      · rintro ⟨hactive, h⟩
        exact runs_bind.mpr ⟨(), s, runs_requireActiveExecution.mpr ⟨hactive id rfl, rfl⟩,
          runs_addUsage_iff.mpr h⟩
  rw [step_eq_some]
  unfold applyEvent
  rw [runs_require_bind, Option.isNone_iff_eq_none]
  constructor
  · rintro ⟨hopen, h⟩
    obtain ⟨_, _, hvalid, h⟩ := runs_bind.mp h
    obtain ⟨_, t, hrun, hcursor⟩ := runs_bind.mp h
    unfold requireBounded at hvalid
    split at hvalid
    · rename_i hbounded
      obtain ⟨-, rfl⟩ := runs_pure.mp hvalid
      obtain ⟨hactive, total, hcombine, rfl⟩ := (hkind t).mp hrun
      exact ⟨hopen, ⟨hbounded, hactive⟩, total, hcombine, runs_modify.mp hcursor⟩
    · exact absurd hvalid runs_throw
  · rintro ⟨hopen, hrecordable, total, hcombine, rfl⟩
    refine ⟨hopen, runs_bind.mpr ⟨(), s, ?_, runs_bind.mpr ⟨(), _, (hkind _).mpr
      ⟨hrecordable.active, total, hcombine, rfl⟩, runs_modify.mpr rfl⟩⟩⟩
    unfold requireBounded
    rw [if_pos hrecordable.bounded]
    exact runs_pure.mpr ⟨rfl, rfl⟩

/-! ## A list of observations -/

/-- The total after a list of observations. -/
def accumulate : Option TokenUsage → List (Option TokenUsageDelta) → Option (Option TokenUsage)
  | total, [] => some total
  | total, usage :: usages =>
    (combine total usage).bind fun total' => accumulate (some total') usages

/-- An accepted record of observations accumulates them, and each of them was recordable. -/
theorem replay_observations {wire : Wire} {observations : List Observation} {n : Nat}
    {s t : RunSnapshot}
    (h : replay (step wire) n s (observations.map Observation.event) = some t) :
    accumulate s.tokenUsage (observations.map Observation.usage) = some t.tokenUsage ∧
      ∀ o ∈ observations, s.terminal = none ∧ Recordable wire s o := by
  induction observations generalizing n s with
  | nil =>
    cases h
    exact ⟨rfl, List.forall_mem_nil _⟩
  | cons o observations ih =>
    rw [List.map_cons, replay] at h
    cases hstep : step wire o.event (n + 1) s with
    | none => rw [hstep] at h; cases h
    | some s' =>
      rw [hstep] at h
      obtain ⟨htotal, hrest⟩ := ih h
      obtain ⟨hopen, hrecordable, total, hcombine, rfl⟩ := step_observation.mp hstep
      refine ⟨?_, List.forall_mem_cons.mpr ⟨⟨hopen, hrecordable⟩, fun o' ho' => ?_⟩⟩
      · rw [List.map_cons, accumulate, hcombine]
        exact htotal
      · exact ⟨hopen, (hrest o' ho').2.bounded, (hrest o' ho').2.active⟩

/-- Recordable observations whose total exists are accepted. -/
theorem replay_of_accumulate {wire : Wire} {observations : List Observation} {n : Nat}
    {s : RunSnapshot} {total : Option TokenUsage} (hopen : s.terminal = none)
    (hrecordable : ∀ o ∈ observations, Recordable wire s o)
    (h : accumulate s.tokenUsage (observations.map Observation.usage) = some total) :
    ∃ t, replay (step wire) n s (observations.map Observation.event) = some t ∧
      t.tokenUsage = total := by
  induction observations generalizing n s with
  | nil =>
    cases h
    exact ⟨s, rfl, rfl⟩
  | cons o observations ih =>
    rw [List.forall_mem_cons] at hrecordable
    rw [List.map_cons, accumulate, Option.bind_eq_some_iff] at h
    obtain ⟨total', hcombine, hrest⟩ := h
    have hstep := (step_observation (n := n + 1)).mpr
      ⟨hopen, hrecordable.1, total', hcombine, rfl⟩
    rw [List.map_cons, replay_cons hstep]
    exact ih hopen (fun o' ho' => ⟨(hrecordable.2 o' ho').bounded, (hrecordable.2 o' ho').active⟩)
      hrest

/-! ## Totals -/

/-- The deltas among the observations. -/
def deltas (usages : List (Option TokenUsageDelta)) : List TokenUsageDelta := usages.filterMap id

/-- The sum of a counter over the deltas. -/
def tokens (counter : TokenUsageDelta → Nat) (usages : List (Option TokenUsageDelta)) : Nat :=
  ((deltas usages).map counter).sum

/-- An optional counter, zero where it is left out. -/
def known (counter : TokenUsageDelta → Option TokenCount) (usage : TokenUsageDelta) : Nat :=
  ((counter usage).map TokenCount.get).getD 0

/-- Every delta has the counter. -/
def carried (counter : TokenUsageDelta → Option TokenCount)
    (usages : List (Option TokenUsageDelta)) : Bool :=
  (deltas usages).all fun usage => (counter usage).isSome

@[simp] theorem deltas_none (usages : List (Option TokenUsageDelta)) :
    deltas (none :: usages) = deltas usages := rfl

@[simp] theorem deltas_some (usage : TokenUsageDelta) (usages : List (Option TokenUsageDelta)) :
    deltas (some usage :: usages) = usage :: deltas usages := rfl

theorem checkedAdd_eq_some {left right total : TokenCount} :
    left.checkedAdd right = some total ↔ total.get = left.get + right.get := by
  unfold TokenCount.checkedAdd
  obtain ⟨total, htotal⟩ := total
  split
  · rename_i hfits
    rw [Option.some.injEq, TokenCount.mk.injEq]
    exact eq_comm
  · rename_i hover
    simp only [reduceCtorEq, false_iff]
    omega

theorem checkedAdd_isSome {left right : TokenCount}
    (h : left.get + right.get ≤ maxSafeGeneration) : ∃ total, left.checkedAdd right = some total :=
  ⟨⟨left.get + right.get, h⟩, checkedAdd_eq_some.mpr rfl⟩

theorem sumOptional_eq {left right total : Option TokenCount}
    (h : sumOptional left right = some total) :
    total.map TokenCount.get =
      if right.isSome then left.map fun count => count.get + (right.map TokenCount.get).getD 0
      else none := by
  cases right with
  | none =>
    cases left <;> · cases h; rfl
  | some right =>
    cases left with
    | none => cases h; rfl
    | some left =>
      rw [sumOptional, Option.map_eq_some_iff] at h
      obtain ⟨sum, hsum, rfl⟩ := h
      simp [checkedAdd_eq_some.mp hsum]

/-- What a total holds after a list of observations. -/
structure Sums (total : TokenUsage) (usages : List (Option TokenUsageDelta)) (result : TokenUsage) :
    Prop where
  input : result.inputTokens.get = total.inputTokens.get + tokens (·.inputTokens.get) usages
  output : result.outputTokens.get = total.outputTokens.get + tokens (·.outputTokens.get) usages
  read : result.cacheReadInputTokens.map TokenCount.get =
    if carried (·.cacheReadInputTokens) usages then
      total.cacheReadInputTokens.map fun count =>
        count.get + tokens (known (·.cacheReadInputTokens)) usages
    else none
  creation : result.cacheCreationInputTokens.map TokenCount.get =
    if carried (·.cacheCreationInputTokens) usages then
      total.cacheCreationInputTokens.map fun count =>
        count.get + tokens (known (·.cacheCreationInputTokens)) usages
    else none
  complete : result.complete = (total.complete && usages.all Option.isSome)

theorem tokens_some (counter : TokenUsageDelta → Nat) (usage : TokenUsageDelta)
    (usages : List (Option TokenUsageDelta)) :
    tokens counter (some usage :: usages) = counter usage + tokens counter usages := by
  simp [tokens]

theorem carried_some (counter : TokenUsageDelta → Option TokenCount) (usage : TokenUsageDelta)
    (usages : List (Option TokenUsageDelta)) :
    carried counter (some usage :: usages) =
      ((counter usage).isSome && carried counter usages) := by
  simp [carried]

/-- An optional counter over one more delta. -/
theorem optional_cons {counter : TokenUsageDelta → Option TokenCount} {usage : TokenUsageDelta}
    {usages : List (Option TokenUsageDelta)} {left middle result : Option TokenCount}
    (hfirst : sumOptional left (counter usage) = some middle)
    (hrest : result.map TokenCount.get = if carried counter usages then
      middle.map fun count => count.get + tokens (known counter) usages else none) :
    result.map TokenCount.get = if carried counter (some usage :: usages) then
      left.map fun count => count.get + tokens (known counter) (some usage :: usages)
        else none := by
  have hmiddle := sumOptional_eq hfirst
  rw [hrest, carried_some, tokens_some]
  cases hu : counter usage with
  | none =>
    rw [hu] at hmiddle
    cases middle with
    | none => simp
    | some count => simp at hmiddle
  | some added =>
    rw [hu] at hmiddle
    cases left with
    | none =>
      cases middle with
      | none => simp
      | some count => simp at hmiddle
    | some count =>
      cases middle with
      | none => simp at hmiddle
      | some sum =>
        simp only [Option.map_some, Option.isSome_some, if_true, Option.some.injEq,
          Option.getD_some] at hmiddle
        have hknown : known counter usage = added.get := by simp [known, hu]
        simp only [Option.map_some, Option.isSome_some, Bool.true_and, hmiddle, hknown,
          Nat.add_assoc]

theorem accumulate_sums {usages : List (Option TokenUsageDelta)} {total : TokenUsage}
    {result : Option TokenUsage} (h : accumulate (some total) usages = some result) :
    ∃ total', result = some total' ∧ Sums total usages total' := by
  induction usages generalizing total with
  | nil =>
    cases h
    refine ⟨total, rfl, rfl, rfl, ?_, ?_, by simp⟩
    · cases total.cacheReadInputTokens <;> rfl
    · cases total.cacheCreationInputTokens <;> rfl
  | cons usage usages ih =>
    rw [accumulate, Option.bind_eq_some_iff] at h
    obtain ⟨middle, hcombine, hrest⟩ := h
    obtain ⟨total', rfl, hsums⟩ := ih hrest
    refine ⟨total', rfl, ?_⟩
    cases usage with
    | none =>
      cases hcombine
      exact { hsums with complete := by simp [hsums.complete] }
    | some usage =>
      obtain ⟨hinput, houtput, hread, hcreation, hcomplete⟩ := combine_some_some.mp hcombine
      refine ⟨?_, ?_, optional_cons hread hsums.read, optional_cons hcreation hsums.creation, ?_⟩
      · rw [hsums.input, checkedAdd_eq_some.mp hinput, tokens_some, Nat.add_assoc]
      · rw [hsums.output, checkedAdd_eq_some.mp houtput, tokens_some, Nat.add_assoc]
      · simp [hsums.complete, hcomplete]

/-- An optional counter of the total has room for everything the deltas know of it. -/
def Fits (total : Option TokenCount) (counter : TokenUsageDelta → Option TokenCount)
    (usages : List (Option TokenUsageDelta)) : Prop :=
  ∀ count, total = some count → count.get + tokens (known counter) usages ≤ maxSafeGeneration

theorem sumOptional_fits {total : Option TokenCount}
    {counter : TokenUsageDelta → Option TokenCount} {usage : TokenUsageDelta}
    {usages : List (Option TokenUsageDelta)} (h : Fits total counter (some usage :: usages)) :
    ∃ sum, sumOptional total (counter usage) = some sum ∧ Fits sum counter usages := by
  cases total with
  | none => exact ⟨none, rfl, fun _ hc => by cases hc⟩
  | some count =>
    cases hu : counter usage with
    | none => exact ⟨none, rfl, fun _ hc => by cases hc⟩
    | some added =>
      have hknown : known counter usage = added.get := by simp [known, hu]
      have hroom := h count rfl
      rw [tokens_some, hknown] at hroom
      obtain ⟨sum, hsum⟩ := checkedAdd_isSome (by omega : count.get + added.get ≤ maxSafeGeneration)
      refine ⟨some sum, by rw [sumOptional, hsum]; rfl, fun count' hc => ?_⟩
      cases hc
      rw [checkedAdd_eq_some.mp hsum]
      omega

theorem accumulate_of_fits {usages : List (Option TokenUsageDelta)} {total : TokenUsage}
    (hinput : total.inputTokens.get + tokens (·.inputTokens.get) usages ≤ maxSafeGeneration)
    (houtput : total.outputTokens.get + tokens (·.outputTokens.get) usages ≤ maxSafeGeneration)
    (hread : Fits total.cacheReadInputTokens (·.cacheReadInputTokens) usages)
    (hcreation : Fits total.cacheCreationInputTokens (·.cacheCreationInputTokens) usages) :
    ∃ result, accumulate (some total) usages = some result := by
  induction usages generalizing total with
  | nil => exact ⟨some total, rfl⟩
  | cons usage usages ih =>
    cases usage with
    | none =>
      obtain ⟨result, hresult⟩ :=
        @ih { total with complete := false } hinput houtput hread hcreation
      exact ⟨result, hresult⟩
    | some usage =>
      rw [tokens_some] at hinput houtput
      obtain ⟨input, hi⟩ := checkedAdd_isSome
        (by omega : total.inputTokens.get + usage.inputTokens.get ≤ maxSafeGeneration)
      obtain ⟨output, ho⟩ := checkedAdd_isSome
        (by omega : total.outputTokens.get + usage.outputTokens.get ≤ maxSafeGeneration)
      obtain ⟨read, hr, hread'⟩ := sumOptional_fits hread
      obtain ⟨creation, hc, hcreation'⟩ := sumOptional_fits hcreation
      have hcombine : combine (some total) (some usage) =
          some ⟨input, output, read, creation, total.complete⟩ :=
        combine_some_some.mpr ⟨hi, ho, hr, hc, rfl⟩
      obtain ⟨result, hresult⟩ := @ih ⟨input, output, read, creation, total.complete⟩
        (by rw [checkedAdd_eq_some.mp hi]; omega) (by rw [checkedAdd_eq_some.mp ho]; omega)
        hread' hcreation'
      refine ⟨result, ?_⟩
      rw [accumulate, hcombine]
      exact hresult

/-! ## Orders -/

section

variable {usages usages' : List (Option TokenUsageDelta)}

theorem tokens_perm (h : usages.Perm usages') (counter : TokenUsageDelta → Nat) :
    tokens counter usages = tokens counter usages' :=
  ((h.filterMap id).map counter).sum_nat

theorem carried_perm (h : usages.Perm usages') (counter : TokenUsageDelta → Option TokenCount) :
    carried counter usages = carried counter usages' :=
  (h.filterMap id).all_eq

end

theorem get_injective : Function.Injective TokenCount.get := by
  rintro ⟨a, ha⟩ ⟨b, hb⟩ h
  cases h
  rfl

theorem usage_ext {a b : TokenUsage} (hinput : a.inputTokens.get = b.inputTokens.get)
    (houtput : a.outputTokens.get = b.outputTokens.get)
    (hread : a.cacheReadInputTokens.map TokenCount.get = b.cacheReadInputTokens.map TokenCount.get)
    (hcreation : a.cacheCreationInputTokens.map TokenCount.get =
      b.cacheCreationInputTokens.map TokenCount.get)
    (hcomplete : a.complete = b.complete) : a = b := by
  obtain ⟨input, output, read, creation, complete⟩ := a
  cases get_injective hinput
  cases get_injective houtput
  cases Option.map_injective get_injective hread
  cases Option.map_injective get_injective hcreation
  cases hcomplete
  rfl

/-- From a total, the order of the observations does not matter. -/
theorem Sums.unique {total a b : TokenUsage} {usages usages' : List (Option TokenUsageDelta)}
    (hperm : usages.Perm usages') (ha : Sums total usages a) (hb : Sums total usages' b) :
    a = b := by
  refine usage_ext ?_ ?_ ?_ ?_ ?_
  · rw [ha.input, hb.input, tokens_perm hperm]
  · rw [ha.output, hb.output, tokens_perm hperm]
  · rw [ha.read, hb.read, tokens_perm hperm, carried_perm hperm]
  · rw [ha.creation, hb.creation, tokens_perm hperm, carried_perm hperm]
  · rw [ha.complete, hb.complete, hperm.all_eq]

/-- What the first total of a run holds after a list of observations: the cache counters are there
when the first observation was a delta and every delta has them. -/
structure Totals (usages : List (Option TokenUsageDelta)) (result : TokenUsage) : Prop where
  input : result.inputTokens.get = tokens (·.inputTokens.get) usages
  output : result.outputTokens.get = tokens (·.outputTokens.get) usages
  read : result.cacheReadInputTokens.map TokenCount.get =
    if (usages.head?.join).isSome && carried (·.cacheReadInputTokens) usages then
      some (tokens (known (·.cacheReadInputTokens)) usages)
    else none
  creation : result.cacheCreationInputTokens.map TokenCount.get =
    if (usages.head?.join).isSome && carried (·.cacheCreationInputTokens) usages then
      some (tokens (known (·.cacheCreationInputTokens)) usages)
    else none
  complete : result.complete = usages.all Option.isSome

theorem optional_first {counter : TokenUsageDelta → Option TokenCount} {usage : TokenUsageDelta}
    {usages : List (Option TokenUsageDelta)} {result : Option TokenCount}
    (h : result.map TokenCount.get = if carried counter usages then
      (counter usage).map fun count => count.get + tokens (known counter) usages else none) :
    result.map TokenCount.get = if carried counter (some usage :: usages) then
      some (tokens (known counter) (some usage :: usages)) else none := by
  rw [h, carried_some, tokens_some]
  cases hu : counter usage with
  | none => simp
  | some count => simp [known, hu]

theorem accumulate_totals {usages : List (Option TokenUsageDelta)} {result : Option TokenUsage}
    (hne : usages ≠ []) (h : accumulate none usages = some result) :
    ∃ total, result = some total ∧ Totals usages total := by
  cases usages with
  | nil => exact absurd rfl hne
  | cons usage usages =>
    rw [accumulate, Option.bind_eq_some_iff] at h
    obtain ⟨first, hcombine, hrest⟩ := h
    obtain ⟨total, rfl, hsums⟩ := accumulate_sums hrest
    refine ⟨total, rfl, ?_⟩
    cases usage with
    | none =>
      cases hcombine
      refine ⟨?_, ?_, ?_, ?_, ?_⟩
      · simpa [TokenCount.zero, tokens] using hsums.input
      · simpa [TokenCount.zero, tokens] using hsums.output
      · simpa using hsums.read
      · simpa using hsums.creation
      · simpa using hsums.complete
    | some usage =>
      cases hcombine
      refine ⟨?_, ?_, ?_, ?_, ?_⟩
      · rw [hsums.input, tokens_some]
      · rw [hsums.output, tokens_some]
      · exact optional_first hsums.read
      · exact optional_first hsums.creation
      · simpa using hsums.complete

/-! ## When the first observation decides -/

/-- Any two orders of the observations that are both accepted leave the same total. -/
def OrderFree (wire : Wire) (n : Nat) (s : RunSnapshot) (observations : List Observation) : Prop :=
  ∀ (xs ys : List Observation) (t t' : RunSnapshot), xs.Perm observations → ys.Perm observations →
    replay (step wire) n s (xs.map Observation.event) = some t →
    replay (step wire) n s (ys.map Observation.event) = some t' → t.tokenUsage = t'.tokenUsage

/-- The run has no total yet and can record the observations; one of them has no numbers, another
has, and a cache counter that every delta carries can be added up. -/
structure FirstDecides (wire : Wire) (s : RunSnapshot) (observations : List Observation) :
    Prop where
  opened : s.terminal = none
  recordable : ∀ o ∈ observations, Recordable wire s o
  first : s.tokenUsage = none
  missing : ∃ o ∈ observations, o.usage = none
  present : ∃ o ∈ observations, o.usage.isSome = true
  input : tokens (·.inputTokens.get) (observations.map Observation.usage) ≤ maxSafeGeneration
  output : tokens (·.outputTokens.get) (observations.map Observation.usage) ≤ maxSafeGeneration
  read : carried (·.cacheReadInputTokens) (observations.map Observation.usage) = true →
    tokens (known (·.cacheReadInputTokens)) (observations.map Observation.usage) ≤ maxSafeGeneration
  creation : carried (·.cacheCreationInputTokens) (observations.map Observation.usage) = true →
    tokens (known (·.cacheCreationInputTokens)) (observations.map Observation.usage) ≤
      maxSafeGeneration
  counted : carried (·.cacheReadInputTokens) (observations.map Observation.usage) = true ∨
    carried (·.cacheCreationInputTokens) (observations.map Observation.usage) = true

theorem mem_deltas {observations : List Observation} {usage : TokenUsageDelta} :
    usage ∈ deltas (observations.map Observation.usage) ↔
      ∃ o ∈ observations, o.usage = some usage := by
  simp [deltas]

theorem lacking {counter : TokenUsageDelta → Option TokenCount} {observations : List Observation}
    (h : carried counter (observations.map Observation.usage) = false) :
    ∃ o ∈ observations, ∃ usage, o.usage = some usage ∧ counter usage = none := by
  rw [carried, List.all_eq_false] at h
  obtain ⟨usage, hin, hnone⟩ := h
  obtain ⟨o, ho, hu⟩ := mem_deltas.mp hin
  exact ⟨o, ho, usage, hu, by simpa using hnone⟩

/-- A delta without the counters that some delta lacks, when at most one counter is lacking. -/
theorem FirstDecides.pick {wire : Wire} {s : RunSnapshot} {observations : List Observation}
    (h : FirstDecides wire s observations) :
    ∃ o ∈ observations, ∃ usage, o.usage = some usage ∧
      (carried (·.cacheReadInputTokens) (observations.map Observation.usage) = false →
        usage.cacheReadInputTokens = none) ∧
      (carried (·.cacheCreationInputTokens) (observations.map Observation.usage) = false →
        usage.cacheCreationInputTokens = none) := by
  cases hread : carried (·.cacheReadInputTokens) (observations.map Observation.usage) with
  | false =>
    obtain ⟨o, ho, usage, hu, hnone⟩ := lacking hread
    have hcreation := h.counted.resolve_left (by simp [hread])
    exact ⟨o, ho, usage, hu, fun _ => hnone, (fun hc => by rw [hcreation] at hc; cases hc)⟩
  | true =>
    cases hcreation : carried (·.cacheCreationInputTokens)
        (observations.map Observation.usage) with
    | false =>
      obtain ⟨o, ho, usage, hu, hnone⟩ := lacking hcreation
      exact ⟨o, ho, usage, hu, (fun hc => by cases hc), fun _ => hnone⟩
    | true =>
      obtain ⟨o, ho, hsome⟩ := h.present
      obtain ⟨usage, hu⟩ := Option.isSome_iff_exists.mp hsome
      exact ⟨o, ho, usage, hu, (fun hc => by cases hc), (fun hc => by cases hc)⟩

/-- An observation moved to the front. -/
theorem perm_front {observations : List Observation} {o : Observation} (h : o ∈ observations) :
    ∃ rest, (o :: rest).Perm observations := ⟨_, (List.perm_cons_erase h).symm⟩

/-- An order that is accepted, from an order whose total exists. -/
theorem FirstDecides.accepted {wire : Wire} {s : RunSnapshot} {observations xs : List Observation}
    (h : FirstDecides wire s observations) (hperm : xs.Perm observations) (n : Nat)
    {result : Option TokenUsage}
    (hresult : accumulate none (xs.map Observation.usage) = some result) :
    ∃ t, replay (step wire) n s (xs.map Observation.event) = some t ∧ t.tokenUsage = result :=
  replay_of_accumulate h.opened (fun o ho => h.recordable o (hperm.mem_iff.mp ho))
    (by rw [h.first]; exact hresult)

/-- With an observation without numbers first, the cache counters are left out. -/
theorem FirstDecides.missing_first {wire : Wire} {s : RunSnapshot}
    {observations : List Observation} (h : FirstDecides wire s observations) (n : Nat) :
    ∃ (xs : List Observation) (t : RunSnapshot) (total : TokenUsage), xs.Perm observations ∧
      replay (step wire) n s (xs.map Observation.event) = some t ∧ t.tokenUsage = some total ∧
      total.cacheReadInputTokens = none ∧ total.cacheCreationInputTokens = none := by
  obtain ⟨o, ho, hnone⟩ := h.missing
  obtain ⟨rest, hperm⟩ := perm_front ho
  have husages := hperm.map Observation.usage
  rw [List.map_cons, hnone] at husages
  have hinput := h.input
  have houtput := h.output
  rw [← tokens_perm husages] at hinput houtput
  obtain ⟨result, hresult⟩ := @accumulate_of_fits (rest.map Observation.usage)
    ⟨TokenCount.zero, TokenCount.zero, none, none, false⟩ ((Nat.zero_add _).trans_le hinput)
    ((Nat.zero_add _).trans_le houtput) (fun _ hc => by cases hc) (fun _ hc => by cases hc)
  obtain ⟨total, rfl, hsums⟩ := accumulate_sums hresult
  have haccumulate : accumulate none ((o :: rest).map Observation.usage) = some (some total) := by
    rw [List.map_cons, hnone]
    exact hresult
  obtain ⟨t, hreplay, ht⟩ := h.accepted hperm n haccumulate
  refine ⟨o :: rest, t, total, hperm, hreplay, ht, ?_, ?_⟩
  · simpa using hsums.read
  · simpa using hsums.creation

/-- The room a delta's own counter leaves for the rest. -/
theorem fits_rest {counter : TokenUsageDelta → Option TokenCount} {usage : TokenUsageDelta}
    {usages rest : List (Option TokenUsageDelta)} (hperm : (some usage :: rest).Perm usages)
    (hlacking : carried counter usages = false → counter usage = none)
    (hroom : carried counter usages = true → tokens (known counter) usages ≤ maxSafeGeneration) :
    Fits (counter usage) counter rest := by
  intro count hcount
  cases hcarried : carried counter usages with
  | false => rw [hlacking hcarried] at hcount; cases hcount
  | true =>
    have hle := hroom hcarried
    rw [← tokens_perm hperm, tokens_some] at hle
    simpa [known, hcount] using hle

/-- With a delta first, a counter that every delta carries stays. -/
theorem FirstDecides.present_first {wire : Wire} {s : RunSnapshot}
    {observations : List Observation} (h : FirstDecides wire s observations) (n : Nat) :
    ∃ (xs : List Observation) (t : RunSnapshot) (total : TokenUsage), xs.Perm observations ∧
      replay (step wire) n s (xs.map Observation.event) = some t ∧ t.tokenUsage = some total ∧
      (total.cacheReadInputTokens ≠ none ∨ total.cacheCreationInputTokens ≠ none) := by
  obtain ⟨o, ho, usage, hu, hread, hcreation⟩ := h.pick
  obtain ⟨rest, hperm⟩ := perm_front ho
  have husages := hperm.map Observation.usage
  rw [List.map_cons, hu] at husages
  have hinput := h.input
  have houtput := h.output
  rw [← tokens_perm husages, tokens_some] at hinput houtput
  obtain ⟨result, hresult⟩ := @accumulate_of_fits (rest.map Observation.usage)
    ⟨usage.inputTokens, usage.outputTokens, usage.cacheReadInputTokens,
      usage.cacheCreationInputTokens, true⟩ hinput houtput
    (fits_rest husages hread h.read) (fits_rest husages hcreation h.creation)
  have haccumulate : accumulate none ((o :: rest).map Observation.usage) = some result := by
    rw [List.map_cons, hu]
    exact hresult
  obtain ⟨t, hreplay, ht⟩ := h.accepted hperm n haccumulate
  rw [List.map_cons, hu] at haccumulate
  obtain ⟨total, rfl, htotals⟩ := accumulate_totals (by simp) haccumulate
  refine ⟨o :: rest, t, total, hperm, hreplay, ht, ?_⟩
  rcases h.counted with hcarried | hcarried
  · left
    intro hnone
    have hmap := htotals.read
    rw [carried_perm husages, hcarried, hnone] at hmap
    simp at hmap
  · right
    intro hnone
    have hmap := htotals.creation
    rw [carried_perm husages, hcarried, hnone] at hmap
    simp at hmap

/-- A counter of the total is within bounds. -/
theorem le_of_map_get {count : Option TokenCount} {value : Nat}
    (h : count.map TokenCount.get = some value) : value ≤ maxSafeGeneration := by
  obtain ⟨found, -, rfl⟩ := Option.map_eq_some_iff.mp h
  exact found.safe

/-- Two orders that begin differently leave the same total unless the first observation decides. -/
theorem totals_eq_of_heads {wire : Wire} {s : RunSnapshot} {observations xs ys : List Observation}
    (hopen : s.terminal = none) (hfirst : s.tokenUsage = none)
    (hrecordable : ∀ o ∈ observations, Recordable wire s o)
    (hxs : xs.Perm observations) (hys : ys.Perm observations)
    (hnot : ¬ FirstDecides wire s observations) {a b : TokenUsage}
    (ha : Totals (xs.map Observation.usage) a) (hb : Totals (ys.map Observation.usage) b)
    (hpresent : ((xs.map Observation.usage).head?.join).isSome = true)
    (hmissing : ((ys.map Observation.usage).head?.join).isSome = false) (hne : ys ≠ []) :
    a = b := by
  have hx := hxs.map Observation.usage
  have hxy := hx.trans (hys.map Observation.usage).symm
  have hcarried : carried (·.cacheReadInputTokens) (xs.map Observation.usage) = false ∧
      carried (·.cacheCreationInputTokens) (xs.map Observation.usage) = false := by
    by_contra hsome
    rw [not_and_or, Bool.not_eq_false, Bool.not_eq_false] at hsome
    apply hnot
    refine ⟨hopen, hrecordable, hfirst, ?_, ?_, ?_, ?_, fun hc => ?_, fun hc => ?_, ?_⟩
    · cases ys with
      | nil => exact absurd rfl hne
      | cons o ys => exact ⟨o, hys.mem_iff.mp List.mem_cons_self, by simpa using hmissing⟩
    · cases xs with
      | nil => simp at hpresent
      | cons o xs => exact ⟨o, hxs.mem_iff.mp List.mem_cons_self, by simpa using hpresent⟩
    · rw [← tokens_perm hx, ← ha.input]
      exact a.inputTokens.safe
    · rw [← tokens_perm hx, ← ha.output]
      exact a.outputTokens.safe
    · rw [← carried_perm hx] at hc
      have hread := ha.read
      rw [hpresent, hc] at hread
      rw [← tokens_perm hx]
      exact le_of_map_get hread
    · rw [← carried_perm hx] at hc
      have hcreation := ha.creation
      rw [hpresent, hc] at hcreation
      rw [← tokens_perm hx]
      exact le_of_map_get hcreation
    · rwa [← carried_perm hx, ← carried_perm hx]
  refine usage_ext ?_ ?_ ?_ ?_ ?_
  · rw [ha.input, hb.input, tokens_perm hxy]
  · rw [ha.output, hb.output, tokens_perm hxy]
  · rw [ha.read, hb.read, hmissing, hcarried.1]
    simp
  · rw [ha.creation, hb.creation, hmissing, hcarried.2]
    simp
  · rw [ha.complete, hb.complete, hxy.all_eq]

/-- Two orders that begin alike leave the same total. -/
theorem Totals.unique {usages usages' : List (Option TokenUsageDelta)} {a b : TokenUsage}
    (hperm : usages.Perm usages') (ha : Totals usages a) (hb : Totals usages' b)
    (hhead : (usages.head?.join).isSome = (usages'.head?.join).isSome) : a = b := by
  refine usage_ext ?_ ?_ ?_ ?_ ?_
  · rw [ha.input, hb.input, tokens_perm hperm]
  · rw [ha.output, hb.output, tokens_perm hperm]
  · rw [ha.read, hb.read, hhead, tokens_perm hperm, carried_perm hperm]
  · rw [ha.creation, hb.creation, hhead, tokens_perm hperm, carried_perm hperm]
  · rw [ha.complete, hb.complete, hperm.all_eq]

/-- Where the first observation does not decide, no order does. -/
theorem orderFree_of_not_firstDecides {wire : Wire} {n : Nat} {s : RunSnapshot}
    {observations : List Observation} (hnot : ¬ FirstDecides wire s observations) :
    OrderFree wire n s observations := by
  intro xs ys t t' hxs hys hx hy
  obtain ⟨hx, hrecorded⟩ := replay_observations hx
  obtain ⟨hy, -⟩ := replay_observations hy
  have hperm := (hxs.trans hys.symm).map Observation.usage
  cases hs : s.tokenUsage with
  | some total =>
    rw [hs] at hx hy
    obtain ⟨a, ha, hsumsa⟩ := accumulate_sums hx
    obtain ⟨b, hb, hsumsb⟩ := accumulate_sums hy
    rw [ha, hb, hsumsa.unique hperm hsumsb]
  | none =>
    rw [hs] at hx hy
    cases xs with
    | nil =>
      cases ys with
      | nil => exact Option.some.inj (hx.symm.trans hy)
      | cons o ys => exact absurd (hys.trans hxs.symm).length_eq (by simp)
    | cons o xs =>
      have hne : ys ≠ [] := by
        rintro rfl
        exact absurd (hys.trans hxs.symm).length_eq (by simp)
      obtain ⟨hopen, -⟩ := hrecorded o List.mem_cons_self
      have hrecordable : ∀ o ∈ observations, Recordable wire s o := fun o ho =>
        (hrecorded o (hxs.mem_iff.mpr ho)).2
      obtain ⟨a, ha, htotalsa⟩ := accumulate_totals (by simp) hx
      obtain ⟨b, hb, htotalsb⟩ := accumulate_totals (by simpa using hne) hy
      rw [ha, hb]
      congr 1
      cases hpx : (((o :: xs).map Observation.usage).head?.join).isSome <;>
        cases hpy : ((ys.map Observation.usage).head?.join).isSome
      · exact htotalsa.unique hperm htotalsb (hpx.trans hpy.symm)
      · exact (totals_eq_of_heads hopen hs hrecordable hys hxs hnot htotalsb htotalsa hpy hpx
          (by simp)).symm
      · exact totals_eq_of_heads hopen hs hrecordable hxs hys hnot htotalsa htotalsb hpx hpy hne
      · exact htotalsa.unique hperm htotalsb (hpx.trans hpy.symm)

/-- **Token usage and arrival order.** Recording a collection of observations in any accepted order
leaves the same total exactly when the first observation does not decide about the cache
counters. -/
theorem usage_order_free_iff (wire : Wire) (n : Nat) (s : RunSnapshot)
    (observations : List Observation) :
    OrderFree wire n s observations ↔ ¬ FirstDecides wire s observations := by
  refine ⟨fun hfree h => ?_, orderFree_of_not_firstDecides⟩
  obtain ⟨xs, t, a, hxs, hx, hta, hread, hcreation⟩ := h.missing_first n
  obtain ⟨ys, t', b, hys, hy, htb, hsome⟩ := h.present_first n
  have hsame := hfree xs ys t t' hxs hys hx hy
  rw [hta, htb] at hsame
  cases hsame
  rcases hsome with hsome | hsome
  · exact hsome hread
  · exact hsome hcreation

namespace Sample

/-- A run with one active node. -/
def startedEvents : List RunEvent :=
  [.runStarted, .nodeStarted reference ⟨build, []⟩ PositiveInteger.one .null]

theorem ten_safe : 10 ≤ maxSafeGeneration := by decide

/-- The node reports nothing. -/
def unknownUsage : Observation := ⟨some reference.execution, none⟩

/-- The agent of the run reports ten tokens each way, all of them cached. -/
def cachedUsage : Observation :=
  ⟨none, some ⟨⟨10, ten_safe⟩, ⟨10, ten_safe⟩, some ⟨10, ten_safe⟩, some ⟨10, ten_safe⟩⟩⟩

/-- The cache counter left by the started run and the observations. -/
def cacheRead (observations : List Observation) : Option (Option Nat) :=
  (replay (step codec.wire) 0 (.ofAdmitted runId request.admitted)
    (startedEvents ++ observations.map Observation.event)).map fun s =>
      (s.tokenUsage.bind TokenUsage.cacheReadInputTokens).map TokenCount.get

end Sample

open Sample in
/-- Both orders are accepted; the one that begins with the missing observation loses the cache
counter. -/
theorem usage_depends_on_order :
    cacheRead [unknownUsage, cachedUsage] = some none ∧
      cacheRead [cachedUsage, unknownUsage] = some (some 10) := by
  decide

end Zeroshot.Ledger
