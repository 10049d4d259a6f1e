import Zeroshot.Verifier.Diagnostic

set_option autoImplicit false

/-!
# Control assignments

The verifier reasons about guards over an abstract assignment space: an assignment gives every
control selector the number of times each of its labels occurs. A completion predicate is a
boolean combination of guards that says when a node completes.
-/

namespace Zeroshot

/-! ## Guards -/

mutual

/-- `guard_node_count`. -/
def Guard.nodeCount : Guard → Nat
  | .all guards => 1 + nodeCounts guards
  | .any guards => 1 + nodeCounts guards
  | .not guard => 1 + guard.nodeCount
  | .inLabels _ _ | .kOfN _ _ _ | .kOfMap _ _ _ => 1

def nodeCounts : List Guard → Nat
  | [] => 0
  | guard :: guards => guard.nodeCount + nodeCounts guards

end

mutual

/-- `guard_selectors`. -/
def Guard.selectors : Guard → List ControlSelector
  | .inLabels value _ => [value]
  | .kOfMap _ value _ => [value]
  | .all guards => selectorsOf guards
  | .any guards => selectorsOf guards
  | .not guard => guard.selectors
  | .kOfN _ values _ => values

def selectorsOf : List Guard → List ControlSelector
  | [] => []
  | guard :: guards => guard.selectors ++ selectorsOf guards

end

mutual

/-- `collect_guard_selector_uses`: a selector, and whether a map aggregate reads it. -/
def Guard.selectorUses (mapAggregate : Bool) : Guard → List (ControlSelector × Bool)
  | .inLabels value _ => [(value, mapAggregate)]
  | .kOfMap _ value _ => [(value, true)]
  | .all guards => selectorUsesOf mapAggregate guards
  | .any guards => selectorUsesOf mapAggregate guards
  | .not guard => guard.selectorUses mapAggregate
  | .kOfN _ values _ => values.map fun value => (value, mapAggregate)

def selectorUsesOf (mapAggregate : Bool) : List Guard → List (ControlSelector × Bool)
  | [] => []
  | guard :: guards => guard.selectorUses mapAggregate ++ selectorUsesOf mapAggregate guards

end

/-! ## Assignments -/

inductive ControlSourceKey
  | signal
  | error
  | group
  | execution
  deriving DecidableEq, Repr

def ControlSourceKey.rank : ControlSourceKey → Nat
  | signal => 0
  | error => 1
  | group => 2
  | execution => 3

structure SelectorKey where
  name : NodeName
  source : ControlSourceKey
  field : Option FieldName
  deriving DecidableEq, Repr

/-- The derived order of an optional field: `none` first. -/
def compareFields : Option FieldName → Option FieldName → Ordering
  | none, none => .eq
  | none, some _ => .lt
  | some _, none => .gt
  | some a, some b => compare a b

instance : Ord SelectorKey where
  compare a b := (compare a.name b.name).then
    ((compare a.source.rank b.source.rank).then (compareFields a.field b.field))

instance : Std.LawfulEqOrd SelectorKey where
  compare_self {a} := by
    have hfield : compareFields a.field a.field = .eq := by
      cases a.field with
      | none => rfl
      | some field => exact Std.ReflOrd.compare_self
    change (compare a.name a.name).then ((compare a.source.rank a.source.rank).then
      (compareFields a.field a.field)) = .eq
    rw [Std.ReflOrd.compare_self, Std.ReflOrd.compare_self, hfield]
    rfl
  eq_of_compare {a b} h := by
    obtain ⟨hname, h⟩ := Ordering.then_eq_eq.mp h
    obtain ⟨hsource, hfield⟩ := Ordering.then_eq_eq.mp h
    obtain ⟨_, sa, fa⟩ := a
    obtain ⟨_, sb, fb⟩ := b
    cases Std.LawfulEqOrd.eq_of_compare hname
    have hs : sa.rank = sb.rank := Std.LawfulEqOrd.eq_of_compare hsource
    have hf : fa = fb := by
      cases fa <;> cases fb <;> first | rfl | cases hfield | skip
      rw [Std.LawfulEqOrd.eq_of_compare hfield]
    cases hf
    cases sa <;> cases sb <;> first | rfl | cases hs

/-- `SelectorKey::from`. -/
def ControlSelector.key (selector : ControlSelector) : SelectorKey :=
  ⟨selector.name,
    match selector.source with
    | .signal => .signal
    | .error => .error
    | .group => .group,
    selector.field⟩

/-- `AssignedControl`: how often each label occurs. -/
abbrev AssignedControl := OrdMap EnumLabel Nat

abbrev Assignment := OrdMap SelectorKey AssignedControl

/-- The derived order of maps: entry by entry, then by length. -/
def compareEntries {κ α : Type} (compareKeys : κ → κ → Ordering)
    (compareValues : α → α → Ordering) : List (κ × α) → List (κ × α) → Ordering
  | [], [] => .eq
  | [], _ :: _ => .lt
  | _ :: _, [] => .gt
  | a :: as, b :: bs =>
    (compareKeys a.1 b.1).then ((compareValues a.2 b.2).then
      (compareEntries compareKeys compareValues as bs))

def compareAssignments : Assignment → Assignment → Ordering :=
  compareEntries compare (compareEntries compare compare)

/-- `assigned_control`. -/
def assignedControl (label : Option EnumLabel) (occurrences : Nat) : AssignedControl :=
  match label with
  | some label => [(label, occurrences)]
  | none => []

/-- Some label occurs. -/
def AssignedControl.occurs (control : AssignedControl) : Bool :=
  control.any fun entry => decide (0 < entry.2)

/-- `control_reports`. -/
def controlReports (control : AssignedControl) (expected : String) : Bool :=
  control.any fun entry => entry.1.asStr == expected && decide (0 < entry.2)

/-- `selector_matches`. -/
def selectorMatches (selector : ControlSelector) (labels : NonEmptyEnumSet)
    (assignment : Assignment) : Bool :=
  match OrdMap.get? assignment selector.key with
  | none => false
  | some counts => labels.values.any fun label => decide (0 < (OrdMap.get? counts label).getD 0)

/-- `selector_occurrences`. -/
def selectorOccurrences (selector : ControlSelector) (labels : NonEmptyEnumSet)
    (assignment : Assignment) : Nat :=
  match OrdMap.get? assignment selector.key with
  | none => 0
  | some counts => (labels.values.map fun label => (OrdMap.get? counts label).getD 0).sum

mutual

/-- `evaluate_guard`. -/
def evaluateGuard (assignment : Assignment) : Guard → Bool
  | .inLabels value labels => selectorMatches value labels assignment
  | .all guards => evaluateAll assignment guards
  | .any guards => evaluateAny assignment guards
  | .not guard => !evaluateGuard assignment guard
  | .kOfN count values labels =>
    count.get ≤ (values.filter fun selector => selectorMatches selector labels assignment).length
  | .kOfMap count value labels => count.get ≤ selectorOccurrences value labels assignment

def evaluateAll (assignment : Assignment) : List Guard → Bool
  | [] => true
  | guard :: guards => evaluateGuard assignment guard && evaluateAll assignment guards

def evaluateAny (assignment : Assignment) : List Guard → Bool
  | [] => false
  | guard :: guards => evaluateGuard assignment guard || evaluateAny assignment guards

end

/-! ## Completion predicates -/

inductive CompletionPredicate
  | always
  | never
  | guard (guard : Guard)
  | not (predicate : CompletionPredicate)
  | all (predicates : List CompletionPredicate)
  | any (predicates : List CompletionPredicate)
  | atLeast (count : Nat) (predicates : List CompletionPredicate)
  deriving Repr

instance : Inhabited CompletionPredicate := ⟨.never⟩

namespace CompletionPredicate

/-- `CompletionPredicate::not`. -/
def negate : CompletionPredicate → CompletionPredicate
  | always => never
  | never => always
  | predicate => not predicate

/-- The combining loop of `CompletionPredicate::all`; `none` once a part can never hold. -/
def combineAll (combined : List CompletionPredicate) :
    List CompletionPredicate → Option (List CompletionPredicate)
  | [] => some combined
  | .never :: _ => none
  | .always :: predicates => combineAll combined predicates
  | .all nested :: predicates => combineAll (combined ++ nested) predicates
  | predicate :: predicates => combineAll (combined ++ [predicate]) predicates

/-- `CompletionPredicate::all`. -/
def allOf (predicates : List CompletionPredicate) : CompletionPredicate :=
  match combineAll [] predicates with
  | none => never
  | some [] => always
  | some [predicate] => predicate
  | some combined => all combined

/-- The combining loop of `CompletionPredicate::any`; `none` once a part always holds. -/
def combineAny (combined : List CompletionPredicate) :
    List CompletionPredicate → Option (List CompletionPredicate)
  | [] => some combined
  | .always :: _ => none
  | .never :: predicates => combineAny combined predicates
  | .any nested :: predicates => combineAny (combined ++ nested) predicates
  | predicate :: predicates => combineAny (combined ++ [predicate]) predicates

/-- `CompletionPredicate::any`. -/
def anyOf (predicates : List CompletionPredicate) : CompletionPredicate :=
  match combineAny [] predicates with
  | none => always
  | some [] => never
  | some [predicate] => predicate
  | some combined => any combined

/-- `CompletionPredicate::at_least`. -/
def atLeastOf (count : Nat) (predicates : List CompletionPredicate) : CompletionPredicate :=
  if count = 0 then always
  else if count > predicates.length then never
  else if count = predicates.length then allOf predicates
  else atLeast count predicates

mutual

/-- `CompletionPredicate::evaluate`. -/
def evaluate (assignment : Assignment) : CompletionPredicate → Bool
  | .always => true
  | .never => false
  | .guard inner => evaluateGuard assignment inner
  | .not predicate => !evaluate assignment predicate
  | .all predicates => evaluateEvery assignment predicates
  | .any predicates => evaluateSome assignment predicates
  | .atLeast count predicates => count ≤ evaluateCount assignment predicates

def evaluateEvery (assignment : Assignment) : List CompletionPredicate → Bool
  | [] => true
  | predicate :: predicates => evaluate assignment predicate && evaluateEvery assignment predicates

def evaluateSome (assignment : Assignment) : List CompletionPredicate → Bool
  | [] => false
  | predicate :: predicates => evaluate assignment predicate || evaluateSome assignment predicates

def evaluateCount (assignment : Assignment) : List CompletionPredicate → Nat
  | [] => 0
  | predicate :: predicates =>
    (if evaluate assignment predicate then 1 else 0) + evaluateCount assignment predicates

end

mutual

/-- `CompletionPredicate::collect_guards`. -/
def guards : CompletionPredicate → List Guard
  | .guard inner => [inner]
  | .not predicate => guards predicate
  | .all predicates => guardsOf predicates
  | .any predicates => guardsOf predicates
  | .atLeast _ predicates => guardsOf predicates
  | .always | .never => []

def guardsOf : List CompletionPredicate → List Guard
  | [] => []
  | predicate :: predicates => guards predicate ++ guardsOf predicates

end

end CompletionPredicate

/-- A selector a guard reads, whether a map aggregate reads it, and what holds when it is read. -/
abbrev SelectorUse := ControlSelector × Bool × CompletionPredicate

mutual

/-- The inner `collect` of `guarded_selector_uses`. -/
def collectGuardedUses (condition : CompletionPredicate) : Guard → List SelectorUse
  | .inLabels value _ => [(value, false, condition)]
  | .kOfMap _ value _ => [(value, true, condition)]
  | .kOfN _ values _ => values.map fun value => (value, false, condition)
  | .not guard => collectGuardedUses condition guard
  | .all guards => collectAllUses condition guards
  | .any guards => collectAnyUses condition guards

/-- Under `all`, a guard is read when the guards before it hold. -/
def collectAllUses (condition : CompletionPredicate) : List Guard → List SelectorUse
  | [] => []
  | guard :: guards =>
    collectGuardedUses condition guard ++
      collectAllUses (.allOf [condition, .guard guard]) guards

/-- Under `any`, a guard is read when the guards before it do not hold. -/
def collectAnyUses (condition : CompletionPredicate) : List Guard → List SelectorUse
  | [] => []
  | guard :: guards =>
    collectGuardedUses condition guard ++
      collectAnyUses (.allOf [condition, (CompletionPredicate.guard guard).negate]) guards

end

/-- `guarded_selector_uses`. -/
def guardedSelectorUses (guard : Guard) : List SelectorUse :=
  collectGuardedUses .always guard

/-- `ParallelJoinCorrelation`. -/
inductive ParallelJoinCorrelation
  | joined (completion : CompletionPredicate)
  | first (satisfaction allCompletions : CompletionPredicate)

namespace ParallelJoinCorrelation

def guards : ParallelJoinCorrelation → List Guard
  | joined completion => completion.guards
  | first satisfaction allCompletions => satisfaction.guards ++ allCompletions.guards

def field : ParallelJoinCorrelation → String
  | joined _ => "joined"
  | first _ _ => "raced"

end ParallelJoinCorrelation

/-- `MapExecutionCorrelation` and `ChoiceExecutionCorrelation`: the group a node runs under and
when it runs. -/
structure ExecutionCorrelation where
  owner : NodeName
  presence : CompletionPredicate

/-! ## Domains -/

/-- `error_labels`. -/
def errorLabels : List EnumLabel := ["timeout", "crash", "malformed", "refusal"].filterMap enumLabel

/-- `group_domain_labels`. -/
def GraphNode.groupDomainLabels (node : GraphNode) (field : String) : Option (List String) :=
  match field, node with
  | "terminated", .loop _ _ _ _ _ => some ["converged", "exhausted"]
  | "overflow", .map _ _ _ _ => some ["ok", "overflow"]
  | "joined", .par _ _ (.first _) => none
  | "joined", .par _ _ _ => some ["reached", "quorum_unreachable"]
  | "raced", .par _ _ (.first _) => some ["satisfied", "no_satisfier"]
  | _, _ => none

/-- `group_domain`. -/
def GraphNode.groupDomain (node : GraphNode) (field : Option FieldName) :
    Option (List EnumLabel) :=
  field.bind fun field => (node.groupDomainLabels field.asStr).map (·.filterMap enumLabel)

/-- `selector_key_domain`. -/
def selectorKeyDomain (key : SelectorKey) (node : GraphNode) : List EnumLabel :=
  match key.source with
  | .signal =>
    match node with
    | .verifier verifier =>
      ((key.field.bind (OrdMap.get? verifier.signals)).map NonEmptyEnumSet.values).getD []
    | _ => []
  | .error => errorLabels
  | .group => (node.groupDomain key.field).getD []
  | .execution => (enumLabel "executed").toList

/-- `signal_path_type`. -/
def signalPathType (verifier : VerifierNode) (path : FieldPath) : Option PayloadType :=
  match path.segments with
  | [field] => (OrdMap.get? verifier.signals field).map .enum
  | _ => none

end Zeroshot
