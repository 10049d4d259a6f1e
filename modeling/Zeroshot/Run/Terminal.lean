import Zeroshot.Run.Invariants

set_option autoImplicit false

/-!
# Terminal stability

A run that is finished stays finished. Active executions may still settle or be voided, at
positions after all the others: the result does not change, nothing is dispatched, and the joins
that were reached keep their winners. The last position is the sentinel of the reducer for an event
that has no position, and is excluded: an event recorded there is taken to come together with a
terminal that was never reached.
-/

namespace Zeroshot

/-- **Terminal stability.** After late events below the last position a finished run has the same
result and asks for no dispatch; joins that were reached keep their winners. -/
theorem reduce_late_events (root : GraphNode) (input input' : ReductionInput)
    (requested : ExecutionId → ExecutionVoidReason → Prop) (reduction reduction' : Reduction)
    (hinitial : input'.initialInput = input.initialInput)
    (hlate : LateEvents (LatePosition input.executions) requested input.executions
      input'.executions)
    (h : reduce .nativeV2 root input = .ok reduction)
    (h' : reduce .nativeV2 root input' = .ok reduction') :
    (∀ result, reduction.terminal = some result →
      reduction'.terminal = some result ∧ Progress.Idle reduction'.decisions) ∧
    (∀ join branches context t outcome outcome',
      joinOutcome root input join branches context t = .ok (some outcome) →
      joinOutcome root input' join branches context t = .ok outcome' → outcome' = some outcome) ∧
    (Ordered input.executions → reachedJoins root input ⊆ reachedJoins root input') := by
  obtain ⟨engine, status, c, log, progress, hnew, hwalk, hreplay, -, hreduction⟩ := reduce_eq_ok h
  obtain ⟨engine', status', c', log', progress', hnew', hwalk', hreplay', -, hreduction'⟩ :=
    reduce_eq_ok h'
  refine ⟨?_, fun join branches context t outcome outcome' => joinOutcome_late hlate, ?_⟩
  · intro result hresult
    have hprojection : status.projection? = some result := by
      rw [hreduction] at hresult
      exact hresult
    have hne : status ≠ .pending := by
      rintro rfl
      cases hprojection
    have hstatus := walkRoot_late hnew hnew' hinitial hlate hwalk hwalk' hne
    refine ⟨?_, idle_of_not_pending hnew' hwalk' hreplay' hreduction' (hstatus ▸ hne)⟩
    rw [hreduction', hstatus]
    exact hprojection
  · intro hordered record hrecord
    have hfacts := walkRoot_facts hnew hnew' hinitial hordered hlate hwalk hwalk'
    simp only [reachedJoins, hnew, hnew'] at hrecord ⊢
    rw [hwalk] at hrecord
    rw [hwalk']
    obtain ⟨effect, heffect, hrecord⟩ := List.mem_filterMap.mp hrecord
    cases effect <;> try cases hrecord
    obtain ⟨effect', heffect', hfact⟩ :=
      mem_facts.mp (hfacts (mem_facts.mpr ⟨_, heffect, rfl⟩ : Fact.joined record ∈ facts log))
    cases effect' <;> cases hfact
    exact List.mem_filterMap.mpr ⟨_, heffect', rfl⟩

namespace Sample

def d : NodeName := ⟨"d", by decide⟩
def e : NodeName := ⟨"e", by decide⟩
def m : NodeName := ⟨"m", by decide⟩
def o : NodeName := ⟨"o", by decide⟩

/-- The first attempt of a step without data, as execution `n`. -/
def attempt (n : Nat) (name : NodeName) (mapIndices : List Nat) (dispatched : Nat)
    (state : DurableExecutionState) : DurableExecution where
  dispatchPosition := position dispatched
  nodeInstance := nodeInstance n
  execution := execution n
  occurrence := ⟨name, mapIndices⟩
  attempt := PositiveInteger.one
  input := .null
  state := state

/-- One race, then the end. -/
def race : GraphSpec where
  profile := .full
  initialInput := .null
  policy := policy
  root := .seq (group s) [.par (group p) [step a, step b] .any, fail f]
  wellFormed := by decide

/-- The race is won; the other contender is in the given state. -/
def raceHistory (state : DurableExecutionState) : List DurableExecution :=
  [attempt 0 a [] 1 (.settled (position 3) done), attempt 1 b [] 2 state]

/-- A history, with the identities that follow it. -/
def inputOf (initialInput : Value) (executions : List DurableExecution) : ReductionInput :=
  ⟨initialInput, executions, 10, 10⟩

def x : FieldPath := ⟨[⟨"x", validateIdentifier_x⟩], by simp, by simp [maxPathSegments]⟩
def items : FieldPath := ⟨[⟨"i", validateIdentifier_i⟩], by simp, by simp [maxPathSegments]⟩

def itemType : PayloadType := .record [(⟨"x", validateIdentifier_x⟩, true, .string)]

def itemsType : PayloadType := .record [(⟨"i", validateIdentifier_i⟩, true, .array itemType)]

/-- The label of a time-out. -/
def timedOut : NonEmptyEnumSet := ⟨[⟨"timeout", by decide⟩], by simp, by decide, by simp⟩

/-- Each item waits for one of two steps to time out, and then ends the run. -/
def firstItem : GraphSpec where
  profile := .full
  initialInput := itemsType
  policy := policy
  root := .seq ⟨s, itemsType, []⟩
    [.map ⟨m, itemsType, []⟩ (.seq ⟨b, .record [], []⟩
      [.par ⟨p, .record [], []⟩ [step d, step e]
        (.first (.inLabels ⟨d, .error, none⟩ timedOut)),
        .succeed ⟨o, itemType, [⟨x, .item x⟩]⟩]) (.state items) two,
      fail f]
  wellFormed := by decide

def twoItems : Value :=
  .object [("i", .array [.object [("x", .string "a")], .object [("x", .string "b")]])]

/-- The second item has settled; the first step of the first item is in the given state. -/
def itemHistory (state : DurableExecutionState) : List DurableExecution :=
  [attempt 0 d [0] 1 state, attempt 1 e [0] 2 (.settled (position 5) done),
    attempt 2 d [1] 3 (.settled (position 6) done),
    attempt 3 e [1] 4 (.settled (position 7) done)]

/-- The reduction of a history, when there is one. -/
def reductionOf (graph : GraphSpec) (initialInput : Value) (executions : List DurableExecution) :
    Reduction :=
  match reduce .nativeV2 graph.root (inputOf initialInput executions) with
  | .ok reduction => reduction
  | .error _ => ⟨none, [], none⟩

end Sample

/-- The hypotheses are met by a race whose loser is voided after its end. -/
theorem race_late_void :
    reduce .nativeV2 Sample.race.root (Sample.inputOf .null (Sample.raceHistory .active)) =
        .ok (Sample.reductionOf Sample.race .null (Sample.raceHistory .active)) ∧
      (Sample.reductionOf Sample.race .null (Sample.raceHistory .active)).terminal.isSome = true ∧
      (Sample.reductionOf Sample.race .null
        (Sample.raceHistory (.voided (Sample.position 4) .parallelJoin))).terminal =
      (Sample.reductionOf Sample.race .null (Sample.raceHistory .active)).terminal := by
  have hposition : LatePosition (Sample.raceHistory .active) (Sample.position 4) := by
    refine ⟨?_, by decide⟩
    exact isAfter_iff.mp (by decide)
  have hlate : LateEvents (LatePosition (Sample.raceHistory .active))
      (fun _ reason => reason = .parallelJoin) (Sample.raceHistory .active)
      (Sample.raceHistory (.voided (Sample.position 4) .parallelJoin)) :=
    .cons (.kept _) (.cons (.voided _ _ _ rfl hposition rfl) .nil)
  have hreduce : reduce .nativeV2 Sample.race.root
      (Sample.inputOf .null (Sample.raceHistory .active)) =
        .ok (Sample.reductionOf Sample.race .null (Sample.raceHistory .active)) := by
    decide
  have hreduce' : reduce .nativeV2 Sample.race.root (Sample.inputOf .null
      (Sample.raceHistory (.voided (Sample.position 4) .parallelJoin))) =
        .ok (Sample.reductionOf Sample.race .null
        (Sample.raceHistory (.voided (Sample.position 4) .parallelJoin))) := by
    decide
  have hterminal : (Sample.reductionOf Sample.race .null
      (Sample.raceHistory .active)).terminal.isSome = true := by decide
  obtain ⟨result, hresult⟩ := Option.isSome_iff_exists.mp hterminal
  have hlater := reduce_late_events Sample.race.root
    (Sample.inputOf .null (Sample.raceHistory .active))
    (Sample.inputOf .null (Sample.raceHistory (.voided (Sample.position 4) .parallelJoin)))
    (fun _ reason => reason = .parallelJoin) _ _ rfl hlate hreduce hreduce'
  obtain ⟨hstable, -⟩ := hlater.1 result hresult
  exact ⟨hreduce, hterminal, hstable.trans hresult.symm⟩

/-- The second of two items has ended the run. When the first step of the first item settles at
the last position, the run is no longer at its end. -/
theorem firstItem_lastPosition :
    Verified Sample.registry Sample.firstItem ∧
      isAfter (Sample.itemHistory .active) HistoryPosition.max = true ∧
      reduce .nativeV2 Sample.firstItem.root
        (Sample.inputOf Sample.twoItems (Sample.itemHistory .active)) =
          .ok (Sample.reductionOf Sample.firstItem Sample.twoItems (Sample.itemHistory .active)) ∧
      (Sample.reductionOf Sample.firstItem Sample.twoItems
        (Sample.itemHistory .active)).terminal.isSome = true ∧
      reduce .nativeV2 Sample.firstItem.root (Sample.inputOf Sample.twoItems
        (Sample.itemHistory (.settled HistoryPosition.max Sample.done))) =
          .ok (Sample.reductionOf Sample.firstItem Sample.twoItems
            (Sample.itemHistory (.settled HistoryPosition.max Sample.done))) ∧
      (Sample.reductionOf Sample.firstItem Sample.twoItems (Sample.itemHistory
        (.settled HistoryPosition.max Sample.done))).terminal = none := by
  refine ⟨?_, ?_, ?_, ?_, ?_, ?_⟩ <;> decide +kernel

end Zeroshot
