import Zeroshot.Lib.Observed
import Zeroshot.Reducer.Positions

set_option autoImplicit false

/-!
# Structural traces

`reduce_with_trace` runs the evaluator and collects a record of every group and terminal it enters.
The records live in one list: a frame holds the index of its own record, and a parallel or map group
cuts off the records of its probes and may put some of them back. An index the list does not have
is `outOfRange` here, where the source would panic.

The traced evaluator is the evaluator of `Zeroshot.Reducer.Evaluation` with the collector's calls
where the source has them. It follows the plain one (`tracedEval_follows`): a frame only ever cuts
at the length it found, so the indices of the frames around it stay in range.
-/

namespace Zeroshot

open Observed

/-! ## The collector -/

/-- `MAX_TRACE_RECORDS`. -/
def maxTraceRecords : Nat := 16384

/-- `MAX_TRACE_EVALUATIONS`. -/
def maxTraceEvaluations : Nat := 65536

/-- `MAX_TRACE_BYTES`. -/
def maxTraceBytes : Nat := 4 * 1024 * 1024

inductive StructuralTraceState
  | entered
  | completed
  | succeeded
  | failed
  deriving DecidableEq, Repr

structure StructuralTrace where
  node : NodeName
  mapIndices : List Nat
  loopIterations : List Nat
  state : StructuralTraceState
  branch : Option NodeName
  detail : Option String
  output : Option Value
  deriving Repr

structure TraceCollector where
  records : List StructuralTrace := []
  evaluations : Nat := 0
  bytes : Nat := 0

/-- How a traced evaluation fails: `ReducerError::TraceLimit`, another reducer error, or an index
without a record. -/
inductive TraceFailure
  | traceLimit
  | reducer (error : ReducerError)
  | outOfRange
  deriving DecidableEq, Repr

namespace TraceCollector

/-- `TraceCollector::enter`. -/
def enter (node : GraphNode) (t : Traversal) (trace : TraceCollector) :
    Except TraceFailure (Option Nat × TraceCollector) :=
  let trace := { trace with evaluations := trace.evaluations + 1 }
  if maxTraceEvaluations < trace.evaluations then .error .traceLimit
  else if node.isExecutable then .ok (none, trace)
  else if maxTraceRecords ≤ trace.records.length then .error .traceLimit
  else
    let trace := { trace with
      bytes := trace.bytes + (1024 + 8 * (t.mapIndices.length + t.loopIterations.length)) }
    if maxTraceBytes < trace.bytes then .error .traceLimit
    else
      .ok (some trace.records.length, { trace with
        records := trace.records ++
          [⟨node.name, t.mapIndices, t.loopIterations, .entered, none, none, none⟩] })

/-- The record at an index, changed. -/
def modify (index : Nat) (change : StructuralTrace → StructuralTrace) (trace : TraceCollector) :
    Except TraceFailure TraceCollector :=
  match trace.records[index]? with
  | none => .error .outOfRange
  | some record => .ok { trace with records := trace.records.set index (change record) }

/-- The group control of the record's visit. -/
def groupDetail (context : Context) (record : StructuralTrace) : Option String :=
  (context.controls.find? fun entry =>
    entry.1.node == record.node && entry.1.source == .group &&
      entry.1.mapIndices == record.mapIndices).map fun entry => entry.2.asStr

/-- `TraceCollector::finish`. -/
def finish (index : Nat) (status : Status) (context : Context) :
    TraceCollector → Except TraceFailure TraceCollector :=
  modify index fun record => { record with
    state := if status == .pending then record.state else .completed
    detail := groupDetail context record }

/-- The collector's part of `trace_terminal`; `textLength` is the length of a value's JSON text. -/
def terminal (textLength : Value → Nat) (index : Nat) (status : Status) (trace : TraceCollector) :
    Except TraceFailure TraceCollector :=
  match status with
  | .terminal _ (.succeeded output) =>
    match trace.records[index]? with
    | none => .error .outOfRange
    | some _ =>
      if maxTraceBytes < trace.bytes + textLength output then .error .traceLimit
      else
        modify index (fun record => { record with state := .succeeded, output := some output })
          { trace with bytes := trace.bytes + textLength output }
  | .terminal _ (.failed reason _) =>
    modify index (fun record => { record with state := .failed, detail := some reason.asStr }) trace
  | .pending | .continuing _ => .ok trace

/-- The first record of the node gets the branch. -/
def setBranch (node branch : NodeName) : List StructuralTrace → List StructuralTrace
  | [] => []
  | record :: records =>
    if record.node == node then { record with branch := some branch } :: records
    else record :: setBranch node branch records

/-- The collector's part of `trace_branch`: the last record of the node gets the branch. -/
def branch (node branch : NodeName) (trace : TraceCollector) : TraceCollector :=
  { trace with records := (setBranch node branch trace.records.reverse).reverse }

/-- The collector's part of `take_trace_since`. -/
def takeSince (checkpoint : Nat) (trace : TraceCollector) :
    Except TraceFailure (List StructuralTrace × TraceCollector) :=
  if trace.records.length < checkpoint then .error .outOfRange
  else
    .ok (trace.records.drop checkpoint, { trace with records := trace.records.take checkpoint })

/-- The collector's part of `restore_trace`. -/
def restore (records : List StructuralTrace) (trace : TraceCollector) :
    Except TraceFailure TraceCollector :=
  if maxTraceRecords < trace.records.length + records.length then .error .traceLimit
  else .ok { trace with records := trace.records ++ records }

end TraceCollector

/-! ## Hooks -/

abbrev TracedWalk := Observed (Option TraceCollector) Effect TraceFailure

/-- A collector operation, where there is a collector. -/
def onTrace {α : Type} (absent : α)
    (operation : TraceCollector → Except TraceFailure (α × TraceCollector)) : TracedWalk α
  | none => ⟨[], .ok (absent, none)⟩
  | some trace =>
    match operation trace with
    | .ok (a, trace) => ⟨[], .ok (a, some trace)⟩
    | .error error => ⟨[], .error error⟩

/-- A collector operation without a value. -/
def updateTrace (operation : TraceCollector → Except TraceFailure TraceCollector) :
    TracedWalk Unit :=
  onTrace () fun trace => (operation trace).map fun trace => ((), trace)

/-- `trace_enter`. -/
def traceEnter (node : GraphNode) (t : Traversal) : TracedWalk (Option Nat) :=
  onTrace none (TraceCollector.enter node t)

/-- `trace_finish`. -/
def traceFinish (index : Option Nat) (status : Status) (context : Context) : TracedWalk Unit :=
  match index with
  | none => pure ()
  | some index => updateTrace (TraceCollector.finish index status context)

/-- `trace_terminal`. -/
def traceTerminal (textLength : Value → Nat) (index : Option Nat) (status : Status) :
    TracedWalk Unit :=
  match index with
  | none => pure ()
  | some index => updateTrace (TraceCollector.terminal textLength index status)

/-- `trace_branch`. -/
def traceBranch (node branch : NodeName) : TracedWalk Unit :=
  updateTrace fun trace => .ok (trace.branch node branch)

/-- How many records there are. -/
def traceLength : Option TraceCollector → Nat
  | none => 0
  | some trace => trace.records.length

/-- `trace_checkpoint`. -/
def traceCheckpoint : TracedWalk Nat := fun s => ⟨[], .ok (traceLength s, s)⟩

/-- `take_trace_since`. -/
def takeTraceSince (checkpoint : Nat) : TracedWalk (List StructuralTrace) :=
  onTrace [] (TraceCollector.takeSince checkpoint)

/-- `restore_trace`. -/
def restoreTrace (records : List StructuralTrace) : TracedWalk Unit :=
  updateTrace (TraceCollector.restore records)

/-! ## The traced evaluator -/

abbrev TracedEvaluator := Context → Traversal → TracedWalk (Status × Context)

/-- A child node and its traced evaluator. -/
structure TracedChild where
  node : GraphNode
  run : TracedEvaluator

/-- A part of the evaluation without trace calls. -/
def untraced {α : Type} (x : Walk α) : TracedWalk α := Observed.plain TraceFailure.reducer x

namespace Engine

/-- The child loop of `eval_sequence`. -/
def tracedChildren : List TracedEvaluator → HistoryPosition → TracedEvaluator
  | [], position => fun local' _ => pure (.continuing position, local')
  | child :: rest, position => fun local' t => do
    let (status, local') ← child local' t
    match status with
    | .continuing childPosition => tracedChildren rest (max position childPosition) local' t
    | other => pure (other.after position, local')

/-- What a sequence and a choice do with the status of their children. -/
def promoteGroup (engine : Engine) (group : Group) (facts : Context → Context → Context)
    (context : Context) (t : Traversal) (local' : Context) (status : Status) :
    Walk (Status × Context) :=
  match status with
  | .continuing position => do
    let context ← engine.promote group.name group.promotedStatePaths local' context t
    continueDecision group.name t.mode
    pure (.continuing position, facts local' context)
  | other => pure (other, context)

/-- `eval_sequence`. -/
def tracedSequence (engine : Engine) (group : Group) (children : List TracedEvaluator) :
    TracedEvaluator := fun context t => do
  let (status, local') ← tracedChildren children HistoryPosition.zero context.clearWrites t
  untraced (engine.promoteGroup group (fun _ context => context) context t local' status)

/-- The branch a choice takes. -/
def selectTraced (engine : Engine) (context : Context) (mapIndices : List Nat)
    (branches : List (Guard × TracedChild)) (otherwise : Option TracedChild) :
    Option TracedChild :=
  ((branches.find? fun branch => engine.guard context mapIndices branch.1).map Prod.snd).or
    otherwise

/-- `eval_choice`. -/
def tracedChoice (engine : Engine) (group : Group) (branches : List (Guard × TracedChild))
    (otherwise : Option TracedChild) : TracedEvaluator := fun context t => do
  match engine.selectTraced context.clearWrites t.mapIndices branches otherwise with
  | none => untraced (Logged.fail .missingChoiceRoute)
  | some selected =>
    traceBranch group.name selected.node.name
    let (status, local') ← selected.run context.clearWrites t
    untraced (engine.promoteGroup group mergeRuntimeFacts context t local' status)

/-- The iteration loop of `eval_loop`. -/
def tracedIterations (engine : Engine) (names : List NodeName) (body : TracedEvaluator)
    (untilGuard : Option Guard) (t : Traversal) :
    Nat → Nat → HistoryPosition → Context → TracedWalk LoopExit
  | 0, _, position, local' => pure (.completed local' position "exhausted")
  | remaining + 1, iteration, position, local' => do
    let (status, local') ← body (clearScopedRuntimeFacts names t.mapIndices local').clearWrites
      { t with loopIterations := t.loopIterations ++ [iteration] }
    match status with
    | .continuing bodyPosition =>
      let position := max position bodyPosition
      if untilGuard.any (engine.guard local' t.mapIndices) then
        pure (.completed local' position "converged")
      else tracedIterations engine names body untilGuard t remaining (iteration + 1) position local'
    | other => pure (.stopped (other.after position))

/-- `finish_loop`, and the return of an iteration that stopped. -/
def finishLoop (engine : Engine) (group : Group) (names : List NodeName) (context : Context)
    (t : Traversal) : LoopExit → Walk (Status × Context)
  | .stopped status => pure (status, context)
  | .completed local' position label => do
    let context ← engine.promote group.name group.promotedStatePaths
      (engine.setGroupControl group.name "terminated" label t.mapIndices local')
      (clearScopedRuntimeFacts names t.mapIndices context) t
    continueDecision group.name t.mode
    pure (.continuing position, context)

/-- `eval_loop`. -/
def tracedLoop (engine : Engine) (group : Group) (body : TracedChild) (untilGuard : Option Guard)
    (maxIterations : PositiveInteger) : TracedEvaluator := fun context t => do
  let names := group.name :: body.node.names
  let exit ← engine.tracedIterations names body.run untilGuard t maxIterations.get 1
    HistoryPosition.zero context
  untraced (engine.finishLoop group names context t exit)

/-- `probe_parallel`. -/
def tracedProbes (branches : List TracedChild) (context : Context) (t : Traversal) :
    TracedWalk (List (Status × Context)) :=
  Observed.forEach (fun branch => branch.run context.clearWrites { t with mode := .probe }) branches

/-- The end of `unreached_parallel_join` when no branch is pending. -/
def settleUnreached (engine : Engine) (group : Group) (join : Join)
    (probes : List (Status × Context)) (context : Context) (t : Traversal) :
    Walk (Status × Context) := do
  continueDecision group.name t.mode
  let positions := probes.map fun probe => probe.1.position
  pure (.continuing (latest (positions.filter fun position => position != HistoryPosition.max)),
    engine.recordParallelControl group join false t.mapIndices context)

/-- `unreached_parallel_join`. -/
def tracedUnreached (engine : Engine) (group : Group) (join : Join) (branches : List TracedChild)
    (probes : List (Status × Context)) : TracedEvaluator := fun context t => do
  if probes.any fun probe => probe.1 == .pending then
    match t.mode with
    | .decide =>
      let _ ← Observed.forEach (fun branch => branch.run context t) branches
      pure (.pending, context)
    | .probe => pure (.pending, context)
  else untraced (engine.settleUnreached group join probes context t)

/-- What a winner adds to the joined context. -/
def joinWinner (group : Group) (names : List NodeName) (t : Traversal) (joined : Context)
    (local' : Context) : Status → Walk Context
  | .continuing _ => do
    let joined ← Logged.lift (copyWrites local' joined
      (promotedWritePaths local'.localWrites group.promotedStatePaths))
    pure (mergeScopedRuntimeFacts names t.mapIndices local' joined)
  | _ => Logged.fail .inconsistentHistory

/-- The winner loop of `join_parallel_winners`. -/
def tracedWinners (group : Group) (branches : List TracedChild) (context : Context)
    (t : Traversal) : List Nat → Context → TracedWalk Context
  | [], joined => pure joined
  | index :: winners, joined => do
    match branches[index]? with
    | none => untraced (Logged.fail .inconsistentHistory)
    | some branch =>
      let (status, local') ← branch.run context.clearWrites t
      let joined ← untraced (joinWinner group branch.node.names t joined local' status)
      tracedWinners group branches context t winners joined

/-- `eval_parallel`. -/
def tracedParallel (engine : Engine) (group : Group) (join : Join) (branches : List TracedChild) :
    TracedEvaluator := fun context t => do
  let checkpoint ← traceCheckpoint
  let probes ← tracedProbes branches context t
  let probeTrace ← takeTraceSince checkpoint
  let completed := engine.parallelCompletions join t.mapIndices 0 probes
  let required := parallelJoinRequired join probes.length
  if completed.length < required then
    let (status, context) ← engine.tracedUnreached group join branches probes context t
    if status == .pending then pure () else restoreTrace probeTrace
    pure (status, context)
  else
    let winners := (completed.insertionSort completedBefore).take required
    let position := latest (winners.map Prod.snd)
    let joined ← tracedWinners group branches context { t with cutoff := position }
      (winners.map Prod.fst) context.clearWrites
    -- Only the nodes of the branches are read from here on.
    untraced (engine.finishParallelJoin group join (branches.map fun branch =>
      engine.child branch.node) required (winners.map Prod.fst) position joined context t)

/-- `evaluate_map_items`. -/
def tracedItems (body : TracedEvaluator) (context : Context) (t : Traversal)
    (items : List Value) : TracedWalk (List MapItemResult) :=
  Observed.forEach (fun (item : Value × Nat) => do
    let scope := t.mapIndices ++ [item.2]
    let (status, itemContext) ← body context.clearWrites
      { t with mapIndices := scope, item := some item.1 }
    pure ⟨status, itemContext, scope⟩) items.zipIdx

/-- The voids of `finish_terminal_map_item`. -/
def voidItems (group : Group) (names : List NodeName) (index : Nat) (scope : List Nat)
    (status : Status) (context : Context) (t : Traversal) : Walk (Status × Context) := do
  Logged.emit (.itemTerminated ⟨group.name, t.mapIndices, t.loopIterations, index, status.position⟩)
  Logged.emit (.void ⟨names, t.mapIndices, some scope, status.position, .mapTerminal,
    t.mode == .decide⟩)
  pure (status, context)

/-- `finish_terminal_map_item`. -/
def tracedTerminalItem (group : Group) (body : TracedChild) (items : List Value) (index : Nat)
    (terminal : Status) : TracedEvaluator := fun context t => do
  match items[index]? with
  | none => untraced (Logged.fail .inconsistentHistory)
  | some item =>
    let scope := t.mapIndices ++ [index]
    match t.mode with
    | .decide =>
      let (status, _) ← body.run context
        { t with mapIndices := scope, item := some item, cutoff := terminal.position }
      untraced (voidItems group body.node.names index scope status context t)
    | .probe => untraced (voidItems group body.node.names index scope terminal context t)

/-- The probe records a map keeps when one of its items ends it. -/
def restoreItem (t : Traversal) (probes : List MapItemResult) (index : Nat)
    (probeTrace : List StructuralTrace) : TracedWalk Unit :=
  match t.mode with
  | .decide => pure ()
  | .probe =>
    match probes[index]? with
    | none => fun _ => ⟨[], .error .outOfRange⟩
    | some probe =>
      restoreTrace (probeTrace.filter fun record => probe.scope.isPrefixOf record.mapIndices)

/-- `eval_map`, once the items are known to be few enough. -/
def tracedMapItems (engine : Engine) (group : Group) (body : TracedChild) (items : List Value) :
    TracedEvaluator := fun context t => do
  let checkpoint ← traceCheckpoint
  let probes ← tracedItems body.run context { t with mode := .probe } items
  let probeTrace ← takeTraceSince checkpoint
  match earliestTerminal 0 probes with
  | some (index, terminal) =>
    restoreItem t probes index probeTrace
    tracedTerminalItem group body items index terminal context t
  | none =>
    match t.mode with
    | .probe =>
      restoreTrace probeTrace
      untraced (engine.settleMap group (engine.child body.node) probes context t)
    | .decide =>
      let results ← tracedItems body.run context t items
      untraced (engine.settleMap group (engine.child body.node) results context t)

/-- `eval_map`. -/
def tracedMap (engine : Engine) (group : Group) (overItems : DataSelector)
    (maxItems : PositiveInteger) (body : TracedChild) : TracedEvaluator := fun context t => do
  let selected ← untraced (Logged.lift (selectData overItems context.state t.item))
  match selected.asArray with
  | none => untraced (Logged.fail .invalidDurableValue)
  | some items =>
    if items.length > maxItems.get then untraced (engine.mapOverflow group context t)
    else engine.tracedMapItems group body items context t

/-- `eval`, around the evaluation of the node's own kind. -/
def observe (textLength : Value → Nat) (node : GraphNode) (evaluate : TracedEvaluator) :
    TracedEvaluator := fun context t => do
  let index ← traceEnter node t
  let (status, context) ← evaluate context t
  traceFinish index status context
  if node.isTerminal then traceTerminal textLength index status else pure ()
  pure (status, context)

mutual

/-- `eval`. -/
def tracedEval (textLength : Value → Nat) (engine : Engine) : GraphNode → TracedEvaluator
  | .step node => observe textLength (.step node) fun context t =>
    untraced (engine.evalExecutable (stepSpec node) context t)
  | .verifier node => observe textLength (.verifier node) fun context t =>
    untraced (engine.evalExecutable (verifierSpec node) context t)
  | .seq group children => observe textLength (.seq group children)
    (engine.tracedSequence group (tracedAll textLength engine children))
  | .choice group branches otherwise => observe textLength (.choice group branches otherwise)
    (engine.tracedChoice group (tracedBranches textLength engine branches)
      (tracedOption textLength engine otherwise))
  | .par group branches join => fun context t => observe textLength (.par group branches join)
    (engine.tracedParallel group join (tracedNodes textLength engine branches)) context
    (enterGroup group.name t)
  | .loop group body untilGuard maxIterations maxIterationsInput =>
    observe textLength (.loop group body untilGuard maxIterations maxIterationsInput)
      (engine.tracedLoop group ⟨body, tracedEval textLength engine body⟩ untilGuard maxIterations)
  | .map group body overItems maxItems => fun context t =>
    observe textLength (.map group body overItems maxItems)
      (engine.tracedMap group overItems maxItems ⟨body, tracedEval textLength engine body⟩) context
      (enterGroup group.name t)
  | .succeed node => observe textLength (.succeed node) fun context t =>
    untraced (evalSucceed node context t)
  | .fail node =>
    observe textLength (.fail node) fun context t => untraced (evalFail node context t)

def tracedAll (textLength : Value → Nat) (engine : Engine) : List GraphNode → List TracedEvaluator
  | [] => []
  | node :: nodes => tracedEval textLength engine node :: tracedAll textLength engine nodes

def tracedNodes (textLength : Value → Nat) (engine : Engine) : List GraphNode → List TracedChild
  | [] => []
  | node :: nodes =>
    ⟨node, tracedEval textLength engine node⟩ :: tracedNodes textLength engine nodes

def tracedBranches (textLength : Value → Nat) (engine : Engine) :
    List (Guard × GraphNode) → List (Guard × TracedChild)
  | [] => []
  | (guard, node) :: branches =>
    (guard, ⟨node, tracedEval textLength engine node⟩) :: tracedBranches textLength engine branches

def tracedOption (textLength : Value → Nat) (engine : Engine) :
    Option GraphNode → Option TracedChild
  | none => none
  | some node => some ⟨node, tracedEval textLength engine node⟩

end

end Engine

/-! ## Traced reductions -/

structure TracedReduction where
  reduction : Reduction
  trace : List StructuralTrace
  evaluations : Nat

/-- `FullV1Reducer::evaluate`, with or without a collector. -/
def evaluate (textLength : Value → Nat) (mode : ExecutionMode) (root : GraphNode)
    (input : ReductionInput) (trace : Bool) : Except TraceFailure TracedReduction :=
  match Engine.new input root mode with
  | .error error => .error (.reducer error)
  | .ok engine =>
    let walk := engine.tracedEval textLength root
      (Context.new (initialState root input.initialInput)) rootTraversal
      (if trace then some {} else none)
    match Progress.replay input.executions walk.log (initialProgress input) with
    | .error error => .error (.reducer error)
    | .ok progress =>
      match walk.result with
      | .error failure => .error failure
      | .ok ((status, _), collector) =>
        if Progress.historyConsumed input.executions progress then
          .ok ⟨finishReduction input.executions status progress,
            (collector.map TraceCollector.records).getD [],
            (collector.map TraceCollector.evaluations).getD 0⟩
        else .error (.reducer .inconsistentHistory)

/-- `FullV1Reducer::reduce_with_trace`. -/
def reduceWithTrace (textLength : Value → Nat) (mode : ExecutionMode) (root : GraphNode)
    (input : ReductionInput) : Except TraceFailure TracedReduction :=
  evaluate textLength mode root input true

/-! ## The hooks change no evaluation -/

section Following

variable {may : Prop} {α : Type}

/-- There are at least `n` records, and a collector only where a stop is allowed. -/
def Records (may : Prop) (n : Nat) (s : Option TraceCollector) : Prop :=
  n ≤ traceLength s ∧ (s.isSome = true → may)

/-- The traced computation follows the plain one from `n` records on. -/
abbrev Traces (may : Prop) (n : Nat) (x : TracedWalk α) (y : Walk α) : Prop :=
  Follows TraceFailure.reducer .traceLimit may (Records may n) x y

theorem Records.mono {n m : Nat} (h : n ≤ m) (s : Option TraceCollector) (hs : Records may m s) :
    Records may n s :=
  ⟨h.trans hs.1, hs.2⟩

theorem Traces.untraced {n : Nat} (x : Walk α) : Traces may n (untraced x) x := Follows.plain x

/-- An update that keeps enough records, or stops. -/
theorem Traces.update {n : Nat} {operation : TraceCollector → Except TraceFailure TraceCollector}
    (hoperation : ∀ trace : TraceCollector, n ≤ trace.records.length →
      operation trace = .error .traceLimit ∨
        ∃ next, operation trace = .ok next ∧ n ≤ next.records.length)
    {f : Unit → TracedWalk α} {y : Walk α} (hf : Traces may n (f ()) y) :
    Traces may n (updateTrace operation >>= f) y := by
  refine Follows.step fun s hs => ?_
  cases s with
  | none => exact .inr ⟨(), none, Records may n, rfl, hs, fun _ h => h, hf⟩
  | some trace =>
    rcases hoperation trace hs.1 with hstop | ⟨next, hnext, hlength⟩
    · refine .inl ⟨hs.2 rfl, ?_⟩
      simp only [updateTrace, onTrace, hstop, Except.map]
    · refine .inr ⟨(), some next, Records may n, ?_, ⟨hlength, fun _ => hs.2 rfl⟩, fun _ h => h, hf⟩
      simp only [updateTrace, onTrace, hnext, Except.map]

theorem TraceCollector.modify_of_lt {index : Nat} {change : StructuralTrace → StructuralTrace}
    {trace : TraceCollector} (h : index < trace.records.length) : ∃ next,
    modify index change trace = .ok next ∧ next.records.length = trace.records.length := by
  refine ⟨{ trace with records := trace.records.set index (change trace.records[index]) }, ?_, ?_⟩
  · rw [modify, List.getElem?_eq_getElem h]
  · exact List.length_set

theorem Traces.finish {n : Nat} {index : Option Nat} (hindex : ∀ i ∈ index, i < n)
    {status : Status} {context : Context} {f : Unit → TracedWalk α} {y : Walk α}
    (hf : Traces may n (f ()) y) :
    Traces may n (traceFinish index status context >>= f) y := by
  cases index with
  | none => exact hf
  | some index =>
    refine Traces.update (fun trace hlength => .inr ?_) hf
    obtain ⟨next, hnext, hsame⟩ := TraceCollector.modify_of_lt
      (Nat.lt_of_lt_of_le (hindex index rfl) hlength)
    exact ⟨next, hnext, hsame ▸ hlength⟩

theorem Traces.terminal {n : Nat} {textLength : Value → Nat} {index : Option Nat}
    (hindex : ∀ i ∈ index, i < n) {status : Status} {f : Unit → TracedWalk α} {y : Walk α}
    (hf : Traces may n (f ()) y) :
    Traces may n (traceTerminal textLength index status >>= f) y := by
  cases index with
  | none => exact hf
  | some index =>
    refine Traces.update (fun trace hlength => ?_) hf
    have hlt := Nat.lt_of_lt_of_le (hindex index rfl) hlength
    cases status with
    | pending | continuing => exact .inr ⟨trace, rfl, hlength⟩
    | terminal position projection =>
      cases projection with
      | failed reason failure =>
        obtain ⟨next, hnext, hsame⟩ := TraceCollector.modify_of_lt hlt
        exact .inr ⟨next, hnext, hsame ▸ hlength⟩
      | succeeded output =>
        by_cases hbytes : maxTraceBytes < trace.bytes + textLength output
        · refine .inl ?_
          simp only [TraceCollector.terminal, List.getElem?_eq_getElem hlt, if_pos hbytes]
        · have hcounted : index <
              { trace with bytes := trace.bytes + textLength output }.records.length := hlt
          obtain ⟨next, hnext, hsame⟩ := TraceCollector.modify_of_lt hcounted
          refine .inr ⟨next, ?_, hsame ▸ hlength⟩
          simp only [TraceCollector.terminal, List.getElem?_eq_getElem hlt, if_neg hbytes]
          exact hnext

theorem TraceCollector.length_setBranch (node branch : NodeName) (records : List StructuralTrace) :
    (setBranch node branch records).length = records.length := by
  induction records with
  | nil => rfl
  | cons record records ih =>
    rw [setBranch]
    split
    · rfl
    · rw [List.length_cons, ih, List.length_cons]

theorem Traces.branch {n : Nat} {node branch : NodeName} {f : Unit → TracedWalk α} {y : Walk α}
    (hf : Traces may n (f ()) y) : Traces may n (traceBranch node branch >>= f) y := by
  refine Traces.update (fun trace hlength => .inr ⟨_, rfl, ?_⟩) hf
  rw [TraceCollector.branch, List.length_reverse, TraceCollector.length_setBranch,
    List.length_reverse]
  exact hlength

theorem Traces.restore {n : Nat} {records : List StructuralTrace} {f : Unit → TracedWalk α}
    {y : Walk α} (hf : Traces may n (f ()) y) : Traces may n (restoreTrace records >>= f) y := by
  refine Traces.update (fun trace hlength => ?_) hf
  rw [TraceCollector.restore]
  split
  · exact .inl rfl
  · refine .inr ⟨_, rfl, ?_⟩
    rw [List.length_append]
    exact Nat.le_add_right_of_le hlength

/-- A frame learns its index and leaves the records before it alone. -/
theorem Traces.enter {n : Nat} {node : GraphNode} {t : Traversal} {f : Option Nat → TracedWalk α}
    {y : Walk α}
    (hf : ∀ (m : Nat) (index : Option Nat), n ≤ m → (∀ i ∈ index, i < m) →
      Traces may m (f index) y) : Traces may n (traceEnter node t >>= f) y := by
  have hnone : Traces may n (f none) y := hf n none (Nat.le_refl n) fun _ h => (by cases h)
  refine Follows.step fun s hs => ?_
  cases s with
  | none => exact .inr ⟨none, none, Records may n, rfl, hs, fun _ h => h, hnone⟩
  | some trace =>
    have hmay := hs.2 rfl
    have hlength : n ≤ trace.records.length := hs.1
    simp only [traceEnter, onTrace, TraceCollector.enter]
    by_cases hevaluations : maxTraceEvaluations < trace.evaluations + 1
    · exact .inl ⟨hmay, by rw [if_pos hevaluations]⟩
    rw [if_neg hevaluations]
    by_cases hleaf : node.isExecutable = true
    · rw [if_pos hleaf]
      exact .inr ⟨none, _, Records may n, rfl, ⟨hlength, fun _ => hmay⟩, fun _ h => h, hnone⟩
    rw [if_neg hleaf]
    by_cases hrecords : maxTraceRecords ≤ trace.records.length
    · exact .inl ⟨hmay, by rw [if_pos hrecords]⟩
    rw [if_neg hrecords]
    by_cases hbytes : maxTraceBytes <
        trace.bytes + (1024 + 8 * (t.mapIndices.length + t.loopIterations.length))
    · exact .inl ⟨hmay, by rw [if_pos hbytes]⟩
    rw [if_neg hbytes]
    refine .inr ⟨some trace.records.length, _, Records may (trace.records.length + 1), rfl,
      ⟨?_, fun _ => hmay⟩, Records.mono (Nat.le_succ_of_le hlength), ?_⟩
    · rw [traceLength, List.length_append]
      exact Nat.le_refl _
    · exact hf _ _ (Nat.le_succ_of_le hlength) fun i hi => Option.some.inj hi ▸ Nat.lt_succ_self _

/-- What runs after a checkpoint may rely on every record it found. -/
theorem Traces.checkpoint {n : Nat} {f : Nat → TracedWalk α} {y : Walk α}
    (hf : ∀ c, n ≤ c → Traces may c (f c) y) : Traces may n (traceCheckpoint >>= f) y := by
  refine Follows.step fun s hs => .inr ?_
  exact ⟨traceLength s, s, Records may (traceLength s), rfl, ⟨Nat.le_refl _, hs.2⟩,
    Records.mono hs.1, hf _ hs.1⟩

theorem Traces.takeSince {c : Nat} {f : List StructuralTrace → TracedWalk α} {y : Walk α}
    (hf : ∀ records, Traces may c (f records) y) :
    Traces may c (takeTraceSince c >>= f) y := by
  refine Follows.step fun s hs => .inr ?_
  cases s with
  | none => exact ⟨[], none, Records may c, rfl, hs, fun _ h => h, hf []⟩
  | some trace =>
    have hlength : c ≤ trace.records.length := hs.1
    refine ⟨trace.records.drop c, some { trace with records := trace.records.take c },
      Records may c, ?_, ⟨?_, fun _ => hs.2 rfl⟩, fun _ h => h, hf _⟩
    · simp only [takeTraceSince, onTrace, TraceCollector.takeSince,
        if_neg (Nat.not_lt.mpr hlength)]
    · exact (List.length_take_of_le hlength).symm.le

/-! ## The traced evaluator follows the plain one -/

/-- From any number of records on, the traced evaluator follows the plain one. -/
def Simulates (may : Prop) (x : TracedEvaluator) (y : Evaluator) : Prop :=
  ∀ n context t, Traces may n (x context t) (y context t)

/-- The same node, and evaluators that simulate. -/
def SimulatesChild (may : Prop) (x : TracedChild) (y : Child) : Prop :=
  x.node = y.node ∧ Simulates may x.run y.run

namespace Engine

theorem tracedChildren_follows {children : List TracedEvaluator} {plain : List Evaluator}
    (h : List.Forall₂ (Simulates may) children plain) (position : HistoryPosition) :
    Simulates may (tracedChildren children position) (runChildren plain position) := by
  induction h generalizing position with
  | nil => exact fun n local' t => Follows.pure _
  | cons hchild _ ih =>
    intro n local' t
    refine (hchild n local' t).bind ?_
    rintro ⟨status, next⟩
    cases status with
    | continuing childPosition => exact ih _ n next t
    | pending | terminal => exact Follows.pure _

theorem tracedSequence_follows (engine : Engine) (group : Group) {children : List TracedEvaluator}
    {plain : List Evaluator} (h : List.Forall₂ (Simulates may) children plain) :
    Simulates may (engine.tracedSequence group children) (engine.evalSequence group plain) := by
  intro n context t
  refine (tracedChildren_follows h HistoryPosition.zero n context.clearWrites t).bind ?_
  rintro ⟨status, next⟩
  cases status <;> exact Traces.untraced _

theorem tracedChoice_follows (engine : Engine) (group : Group)
    {branches : List (Guard × TracedChild)} {plain : List (Guard × Evaluator)}
    {otherwise : Option TracedChild} {fallback : Option Evaluator}
    (hbranches : List.Forall₂ (fun x y => x.1 = y.1 ∧ Simulates may x.2.run y.2) branches plain)
    (hotherwise : Option.Rel (fun x y => Simulates may x.run y) otherwise fallback) :
    Simulates may (engine.tracedChoice group branches otherwise)
      (engine.evalChoice group plain fallback) := by
  intro n context t
  have hselected : Option.Rel (fun x y => Simulates may x.run y)
      (engine.selectTraced context.clearWrites t.mapIndices branches otherwise)
      (engine.selectBranch context.clearWrites t.mapIndices plain fallback) := by
    unfold selectTraced selectBranch
    induction hbranches with
    | nil => exact hotherwise
    | @cons x y _ _ hhead _ ih =>
      rw [List.find?_cons, List.find?_cons, hhead.1]
      cases engine.guard context.clearWrites t.mapIndices y.1 with
      | true => exact .some hhead.2
      | false => exact ih
  unfold tracedChoice evalChoice
  revert hselected
  generalize engine.selectTraced context.clearWrites t.mapIndices branches otherwise = traced
  generalize engine.selectBranch context.clearWrites t.mapIndices plain fallback = selected
  intro hselected
  cases hselected with
  | none => exact Traces.untraced _
  | some hrun =>
    refine Traces.branch ((hrun n context.clearWrites t).bind ?_)
    rintro ⟨status, next⟩
    cases status <;> exact Traces.untraced _

theorem tracedIterations_follows (engine : Engine) (names : List NodeName) {body : TracedEvaluator}
    {plain : Evaluator} (hbody : Simulates may body plain) (untilGuard : Option Guard)
    (t : Traversal) (n remaining : Nat) : ∀ iteration position local',
    Traces may n
      (engine.tracedIterations names body untilGuard t remaining iteration position local')
      (engine.runIterations names plain untilGuard t remaining iteration position local') := by
  induction remaining with
  | zero => exact fun _ _ _ => Follows.pure _
  | succ remaining ih =>
    intro iteration position local'
    refine (hbody n _ _).bind ?_
    rintro ⟨status, next⟩
    cases status with
    | continuing bodyPosition =>
      dsimp only
      by_cases hguard : untilGuard.any (engine.guard next t.mapIndices) = true
      · rw [if_pos hguard, if_pos hguard]
        exact Follows.pure _
      · rw [if_neg hguard, if_neg hguard]
        exact ih _ _ _
    | pending | terminal => exact Follows.pure _

theorem tracedLoop_follows (engine : Engine) (group : Group) {body : TracedChild} {plain : Child}
    (hbody : SimulatesChild may body plain) (untilGuard : Option Guard)
    (maxIterations : PositiveInteger) :
    Simulates may (engine.tracedLoop group body untilGuard maxIterations)
      (engine.evalLoop group plain untilGuard maxIterations) := by
  intro n context t
  unfold tracedLoop evalLoop
  rw [hbody.1]
  refine (engine.tracedIterations_follows _ hbody.2 untilGuard t n _ _ _ _).bind fun exit => ?_
  cases exit <;> exact Traces.untraced _

/-! ### Parallel groups -/

theorem tracedProbes_follows {branches : List TracedChild} {plain : List Child}
    (h : List.Forall₂ (SimulatesChild may) branches plain) (context : Context) (t : Traversal)
    (n : Nat) : Traces may n (tracedProbes branches context t) (probeParallel plain context t) := by
  induction h with
  | nil => exact Follows.pure _
  | cons hhead _ ih =>
    exact (hhead.2 n _ _).bind fun result => ih.bind fun results => Follows.pure _

theorem tracedUnreached_follows (engine : Engine) (group : Group) (join : Join)
    {branches : List TracedChild} {plain : List Child}
    (h : List.Forall₂ (SimulatesChild may) branches plain) (probes : List (Status × Context)) :
    Simulates may (engine.tracedUnreached group join branches probes)
      (engine.unreachedParallelJoin group join plain probes) := by
  intro n context t
  unfold tracedUnreached unreachedParallelJoin
  by_cases hpending : (probes.any fun probe => probe.1 == .pending) = true
  · rw [if_pos hpending, if_pos hpending]
    cases hmode : t.mode with
    | probe => exact Follows.pure _
    | decide =>
      have hall : Traces may n (Observed.forEach (fun branch => branch.run context t) branches)
          (Logged.forEach (fun branch => branch.run context t) plain) := by
        induction h with
        | nil => exact Follows.pure _
        | cons hhead _ ih =>
          exact (hhead.2 n _ _).bind fun result => ih.bind fun results => Follows.pure _
      exact hall.bind fun _ => Follows.pure _
  · rw [if_neg hpending, if_neg hpending]
    exact Traces.untraced _

theorem tracedWinners_follows (group : Group) {branches : List TracedChild} {plain : List Child}
    (h : List.Forall₂ (SimulatesChild may) branches plain) (context : Context) (t : Traversal)
    (n : Nat) (winners : List Nat) : ∀ joined,
    Traces may n (tracedWinners group branches context t winners joined)
      (joinParallelWinners group plain context t winners joined) := by
  induction winners with
  | nil => exact fun _ => Follows.pure _
  | cons index winners ih =>
    intro joined
    have hindexed : Option.Rel (SimulatesChild may) branches[index]? plain[index]? := by
      by_cases hlt : index < branches.length
      · have hlt' : index < plain.length := h.length_eq ▸ hlt
        rw [List.getElem?_eq_getElem hlt, List.getElem?_eq_getElem hlt']
        exact .some ((List.forall₂_iff_get.mp h).2 index hlt hlt')
      · have hge : plain.length ≤ index := h.length_eq ▸ Nat.le_of_not_lt hlt
        rw [List.getElem?_eq_none (Nat.le_of_not_lt hlt), List.getElem?_eq_none hge]
        exact .none
    unfold tracedWinners joinParallelWinners
    revert hindexed
    generalize branches[index]? = traced
    generalize plain[index]? = selected
    intro hindexed
    cases hindexed with
    | none => exact Traces.untraced _
    | @some branch child hbranch =>
      refine (hbranch.2 n _ _).bind ?_
      rintro ⟨status, local'⟩
      rw [hbranch.1]
      cases status with
      | pending | terminal => exact (Traces.untraced _).bind ih
      | continuing position =>
        -- The plain loop merges the facts in its next call, the traced one in the winner's part.
        have hfollows := (Traces.untraced (joinWinner group child.node.names t joined local'
          (.continuing position))).bind ih
        revert hfollows
        dsimp only [joinWinner]
        generalize copyWrites local' joined
          (promotedWritePaths local'.localWrites group.promotedStatePaths) = copied
        intro hfollows
        cases copied <;> exact hfollows

theorem tracedParallel_follows (engine : Engine) (group : Group) (join : Join)
    {branches : List TracedChild} {nodes : List GraphNode}
    (h : List.Forall₂ (SimulatesChild may) branches (nodes.map engine.child)) :
    Simulates may (engine.tracedParallel group join branches)
      (engine.evalParallel group join (nodes.map engine.child)) := by
  have hnodes : branches.map (fun branch => engine.child branch.node) = nodes.map engine.child := by
    clear join
    induction nodes generalizing branches with
    | nil =>
      cases h
      rfl
    | cons node nodes ih =>
      rw [List.map_cons] at h
      cases h with
      | cons hhead htail => rw [List.map_cons, List.map_cons, ih htail, hhead.1]; rfl
  intro n context t
  refine Traces.checkpoint fun c _ => (tracedProbes_follows h context t c).bind fun probes => ?_
  refine Traces.takeSince fun records => ?_
  by_cases hfew : (engine.parallelCompletions join t.mapIndices 0 probes).length <
      parallelJoinRequired join probes.length
  · dsimp only
    rw [if_pos hfew, if_pos hfew]
    refine (engine.tracedUnreached_follows group join h probes c context t).observing ?_
    rintro ⟨status, next⟩
    by_cases hpending : (status == .pending) = true
    · dsimp only
      rw [if_pos hpending]
      exact Follows.pure _
    · dsimp only
      rw [if_neg hpending]
      exact Traces.restore (Follows.pure _)
  · dsimp only
    rw [if_neg hfew, if_neg hfew, hnodes]
    refine (tracedWinners_follows group h context _ c _ _).bind fun joined => ?_
    exact Traces.untraced _

/-! ### Maps -/

theorem tracedItems_follows {body : TracedEvaluator} {plain : Evaluator}
    (h : Simulates may body plain) (context : Context) (t : Traversal) (items : List Value)
    (n : Nat) :
    Traces may n (tracedItems body context t items) (evaluateMapItems plain context t items) :=
  Follows.forEach fun _ _ => (h n _ _).bind fun _ => Follows.pure _

theorem tracedTerminalItem_follows (group : Group) {body : TracedChild} {plain : Child}
    (h : SimulatesChild may body plain) (items : List Value) (index : Nat) (terminal : Status) :
    Simulates may (tracedTerminalItem group body items index terminal)
      (finishTerminalMapItem group plain items index terminal) := by
  intro n context t
  unfold tracedTerminalItem finishTerminalMapItem
  rw [h.1]
  cases items[index]? with
  | none => exact Traces.untraced _
  | some item =>
    dsimp only
    unfold voidItems
    cases hmode : t.mode with
    | probe => exact Traces.untraced _
    | decide => exact (h.2 n _ _).bind fun _ => Traces.untraced _

theorem restoreItem_follows {t : Traversal} {probes : List MapItemResult} {index : Nat}
    (hindex : index < probes.length) {probeTrace : List StructuralTrace} {n : Nat}
    {f : Unit → TracedWalk α} {y : Walk α} (hf : Traces may n (f ()) y) :
    Traces may n (restoreItem t probes index probeTrace >>= f) y := by
  unfold restoreItem
  cases t.mode with
  | decide => exact hf
  | probe =>
    rw [List.getElem?_eq_getElem hindex]
    exact Traces.restore hf

theorem tracedMapItems_follows (engine : Engine) (group : Group) {body : TracedChild}
    {node : GraphNode} (h : SimulatesChild may body (engine.child node)) (items : List Value)
    (n : Nat) (context : Context) (t : Traversal) :
    Traces may n (engine.tracedMapItems group body items context t) (do
      let probes ← evaluateMapItems (engine.eval node) context { t with mode := .probe } items
      match earliestTerminal 0 probes with
      | some (index, terminal) =>
        finishTerminalMapItem group (engine.child node) items index terminal context t
      | none =>
        match t.mode with
        | .probe => engine.settleMap group (engine.child node) probes context t
        | .decide =>
          let results ← evaluateMapItems (engine.eval node) context t items
          engine.settleMap group (engine.child node) results context t) := by
  refine Traces.checkpoint fun c _ =>
    (tracedItems_follows h.2 context _ items c).bind fun probes => ?_
  refine Traces.takeSince fun records => ?_
  have hnode : engine.child body.node = engine.child node := congrArg engine.child h.1
  rw [hnode]
  cases hterminal : earliestTerminal 0 probes with
  | some found =>
    obtain ⟨index, terminal⟩ := found
    have hindex : index < probes.length := by
      obtain ⟨k, result, hk, hresult, -⟩ := earliestTerminal_eq_some hterminal
      obtain ⟨hlt, -⟩ := List.getElem?_eq_some_iff.mp hresult
      omega
    exact restoreItem_follows hindex (tracedTerminalItem_follows group h items index terminal _ _ _)
  | none =>
    dsimp only
    cases t.mode with
    | probe => exact Traces.restore (Traces.untraced _)
    | decide =>
      exact (tracedItems_follows h.2 context t items c).bind fun _ => Traces.untraced _

theorem tracedMap_follows (engine : Engine) (group : Group) (overItems : DataSelector)
    (maxItems : PositiveInteger) {body : TracedChild} {node : GraphNode}
    (h : SimulatesChild may body (engine.child node)) :
    Simulates may (engine.tracedMap group overItems maxItems body)
      (engine.evalMap group overItems maxItems (engine.child node)) := by
  intro n context t
  refine (Traces.untraced _).bind fun selected => ?_
  cases selected.asArray with
  | none => exact Traces.untraced _
  | some items =>
    dsimp only
    by_cases hmany : items.length > maxItems.get
    · rw [if_pos hmany, if_pos hmany]
      exact Traces.untraced _
    · rw [if_neg hmany, if_neg hmany]
      exact engine.tracedMapItems_follows group h items n context t

/-! ### Nodes -/

theorem observe_follows (textLength : Value → Nat) (node : GraphNode) {x : TracedEvaluator}
    {y : Evaluator} (h : Simulates may x y) : Simulates may (observe textLength node x) y := by
  intro n context t
  refine Traces.enter fun m index _ hindex => (h m context t).observing ?_
  rintro ⟨status, next⟩
  refine Traces.finish hindex ?_
  by_cases hterminal : node.isTerminal = true
  · dsimp only
    rw [if_pos hterminal]
    exact Traces.terminal hindex (Follows.pure _)
  · dsimp only
    rw [if_neg hterminal]
    exact Follows.pure _

theorem tracedAll_eq (textLength : Value → Nat) (engine : Engine) (nodes : List GraphNode) :
    tracedAll textLength engine nodes = nodes.map (engine.tracedEval textLength) := by
  induction nodes with
  | nil => rfl
  | cons node nodes ih => rw [tracedAll, ih, List.map_cons]

theorem tracedNodes_eq (textLength : Value → Nat) (engine : Engine) (nodes : List GraphNode) :
    tracedNodes textLength engine nodes =
      nodes.map fun node => ⟨node, engine.tracedEval textLength node⟩ := by
  induction nodes with
  | nil => rfl
  | cons node nodes ih => rw [tracedNodes, ih, List.map_cons]

theorem tracedBranches_eq (textLength : Value → Nat) (engine : Engine)
    (branches : List (Guard × GraphNode)) : tracedBranches textLength engine branches =
      branches.map fun branch => (branch.1, ⟨branch.2, engine.tracedEval textLength branch.2⟩) := by
  induction branches with
  | nil => rfl
  | cons branch branches ih => rw [tracedBranches, ih, List.map_cons]

/-- **The traced evaluator follows the plain one.** -/
theorem tracedEval_follows (textLength : Value → Nat) (engine : Engine) (node : GraphNode) :
    Simulates may (engine.tracedEval textLength node) (engine.eval node) := by
  induction node using GraphNode.induct with
  | step node | verifier node | succeed node | fail node =>
    rw [tracedEval, eval]
    exact observe_follows textLength _ fun _ _ _ => Traces.untraced _
  | seq group children ih =>
    rw [tracedEval, eval, tracedAll_eq, evalAll_eq]
    refine observe_follows textLength _ (engine.tracedSequence_follows group ?_)
    rw [List.forall₂_map_left_iff, List.forall₂_map_right_iff, List.forall₂_same]
    exact ih
  | choice group branches otherwise ih ihotherwise =>
    rw [tracedEval, eval, tracedBranches_eq, evalBranches_eq]
    refine observe_follows textLength _ (engine.tracedChoice_follows group ?_ ?_)
    · rw [List.forall₂_map_left_iff, List.forall₂_map_right_iff, List.forall₂_same]
      exact fun branch hbranch => ⟨rfl, ih branch hbranch⟩
    · cases otherwise with
      | none => exact .none
      | some node => exact .some (ihotherwise node rfl)
  | par group branches join ih =>
    intro n context t
    rw [tracedEval, eval, tracedNodes_eq, evalChildren_eq]
    refine observe_follows textLength _ (engine.tracedParallel_follows group join ?_) n context _
    rw [List.forall₂_map_left_iff, List.forall₂_map_right_iff, List.forall₂_same]
    exact fun branch hbranch => ⟨rfl, ih branch hbranch⟩
  | loop group body untilGuard maxIterations maxIterationsInput ih =>
    rw [tracedEval, eval]
    exact observe_follows textLength _
      (engine.tracedLoop_follows group ⟨rfl, ih⟩ untilGuard maxIterations)
  | map group body overItems maxItems ih =>
    intro n context t
    rw [tracedEval, eval]
    exact observe_follows textLength _
      (engine.tracedMap_follows group overItems maxItems ⟨rfl, ih⟩) n context _

end Engine

end Following

/-! ## Tracing does not interfere -/

theorem Progress.replay_append (executions : List DurableExecution) (first second : List Effect)
    (progress : Progress) : replay executions (first ++ second) progress =
      (replay executions first progress).bind (replay executions second) := by
  induction first generalizing progress with
  | nil => rfl
  | cons effect first ih =>
    rw [List.cons_append, replay, replay]
    cases apply executions effect progress with
    | error error => rfl
    | ok next => exact ih next

/-- An evaluation stops at a limit, where that may happen, or has the result of the reduction. -/
theorem evaluate_agrees (textLength : Value → Nat) (mode : ExecutionMode) (root : GraphNode)
    (input : ReductionInput) (trace : Bool) :
    (trace = true ∧ evaluate textLength mode root input trace = .error .traceLimit) ∨
      (evaluate textLength mode root input trace).map TracedReduction.reduction =
        (reduce mode root input).mapError TraceFailure.reducer := by
  unfold evaluate reduce
  cases Engine.new input root mode with
  | error error => exact .inr rfl
  | ok engine =>
    have hfollows : Agrees TraceFailure.reducer .traceLimit (trace = true)
        (Records (trace = true) 0)
        (engine.tracedEval textLength root (Context.new (initialState root input.initialInput))
          rootTraversal (if trace then some {} else none))
        (engine.walkRoot root input.initialInput) := by
      refine engine.tracedEval_follows textLength root 0 _ _ _ ⟨Nat.zero_le _, fun h => ?_⟩
      cases trace with
      | true => rfl
      | false => cases h
    dsimp only [bind, Except.bind]
    revert hfollows
    generalize engine.tracedEval textLength root
      (Context.new (initialState root input.initialInput)) rootTraversal
      (if trace then some {} else none) = traced
    generalize engine.walkRoot root input.initialInput = walk
    intro hfollows
    cases hfollows with
    | @returned log result collector =>
      obtain ⟨status, context⟩ := result
      refine .inr ?_
      cases Progress.replay input.executions log (initialProgress input) with
      | error error => rfl
      | ok progress =>
        dsimp only
        by_cases hconsumed : Progress.historyConsumed input.executions progress = true
        · rw [if_pos hconsumed, if_pos hconsumed]
          rfl
        · rw [if_neg hconsumed, if_neg hconsumed]
          rfl
    | @failed log error =>
      refine .inr ?_
      cases Progress.replay input.executions log (initialProgress input) <;> rfl
    | @stopped log rest result htrace =>
      dsimp only
      rw [Progress.replay_append]
      cases Progress.replay input.executions log (initialProgress input) with
      | error error => exact .inr rfl
      | ok progress => exact .inl ⟨htrace, rfl⟩

/-- Without a collector the evaluation is the reduction. -/
theorem evaluate_untraced (textLength : Value → Nat) (mode : ExecutionMode) (root : GraphNode)
    (input : ReductionInput) :
    (evaluate textLength mode root input false).map TracedReduction.reduction =
      (reduce mode root input).mapError TraceFailure.reducer := by
  rcases evaluate_agrees textLength mode root input false with ⟨h, -⟩ | h
  · cases h
  · exact h

/-- No traced evaluation asks for a record that is not there. -/
theorem Engine.tracedEval_inRange (textLength : Value → Nat) (engine : Engine) (node : GraphNode)
    (context : Context) (t : Traversal) (collector : TraceCollector) :
    (engine.tracedEval textLength node context t (some collector)).result ≠
      .error .outOfRange := by
  have hfollows := engine.tracedEval_follows textLength node 0 context t (some collector)
    (⟨Nat.zero_le _, fun _ => trivial⟩ : Records True 0 (some collector))
  revert hfollows
  generalize engine.tracedEval textLength node context t (some collector) = traced
  generalize engine.eval node context t = walk
  intro hfollows hrange
  cases hfollows <;> cases hrange

/-- **Tracing does not interfere.** A traced reduction stops at a trace limit or has the result of
the plain one, and it never asks for a record that is not there. -/
theorem tracing_noninterference (textLength : Value → Nat) (mode : ExecutionMode) (root : GraphNode)
    (input : ReductionInput) :
    (reduceWithTrace textLength mode root input = .error .traceLimit ∨
      (reduceWithTrace textLength mode root input).map TracedReduction.reduction =
        (reduce mode root input).mapError TraceFailure.reducer) ∧
    ∀ (engine : Engine) (context : Context) (t : Traversal) (collector : TraceCollector),
      (engine.tracedEval textLength root context t (some collector)).result ≠
        .error .outOfRange := by
  refine ⟨?_, fun engine => engine.tracedEval_inRange textLength root⟩
  rcases evaluate_agrees textLength mode root input true with ⟨-, h⟩ | h
  · exact .inl h
  · exact .inr h

end Zeroshot
