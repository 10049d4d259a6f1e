import Zeroshot.Protocol.Outcome
import Mathlib.Algebra.GroupWithZero.Nat
import Mathlib.Order.Fin.Basic
import Mathlib.Data.List.Sort

set_option autoImplicit false

/-!
# Execution histories

The normalized, run-local history the supervisor hands to the reducer, and the checks
`validate_history_for_mode` makes on it before any graph node is evaluated.

Positions are the integers up to `i64::MAX`; the last of them is also the reducer's value for "no
position" and "no cutoff".
-/

namespace Zeroshot

/-! ## Positions and identities -/

/-- `HistoryPosition`: an integer up to `i64::MAX`. -/
abbrev HistoryPosition := Fin (2 ^ 63)

namespace HistoryPosition

def zero : HistoryPosition := ⟨0, by decide⟩

def max : HistoryPosition := ⟨2 ^ 63 - 1, by decide⟩

theorem zero_le (p : HistoryPosition) : zero ≤ p := Nat.zero_le _

theorem le_max (p : HistoryPosition) : p ≤ max := Nat.le_of_lt_succ p.isLt

end HistoryPosition

inductive IdentityTag
  | nodeInstance
  | execution
  deriving DecidableEq, Repr

/-- `PositiveIdentity`: a non-zero 64-bit integer. -/
structure PositiveIdentity (tag : IdentityTag) where
  get : Nat
  positive : 0 < get
  bounded : get < 2 ^ 64
  deriving Repr

instance (tag : IdentityTag) : DecidableEq (PositiveIdentity tag) := fun a b =>
  decidable_of_iff (a.get = b.get) (by cases a; cases b; simp)

theorem PositiveIdentity.eq_of_get {tag : IdentityTag} {a b : PositiveIdentity tag}
    (h : a.get = b.get) : a = b := by
  cases a
  cases b
  cases h
  rfl

/-- `PositiveIdentity::new` on a 64-bit value. -/
def PositiveIdentity.new (tag : IdentityTag) (value : Nat) : Option (PositiveIdentity tag) :=
  if h : 0 < value ∧ value < 2 ^ 64 then some ⟨value, h.1, h.2⟩ else none

abbrev NodeInstanceId := PositiveIdentity .nodeInstance

abbrev ExecutionId := PositiveIdentity .execution

/-! ## Executions -/

/-- One occurrence of a node: its name and the item index of every enclosing map. -/
structure StructuralOccurrence where
  node : NodeName
  mapIndices : List Nat
  deriving DecidableEq, Repr

instance : Ord StructuralOccurrence where
  compare a b := (compare a.node b.node).then (compare a.mapIndices b.mapIndices)

instance : Std.LawfulEqOrd StructuralOccurrence where
  compare_self {a} := by
    change (compare a.node a.node).then (compare a.mapIndices a.mapIndices) = .eq
    rw [Std.ReflOrd.compare_self, Std.ReflOrd.compare_self]
    rfl
  eq_of_compare {a b} h := by
    obtain ⟨hnode, hindices⟩ := Ordering.then_eq_eq.mp h
    cases a
    cases b
    cases Std.LawfulEqOrd.eq_of_compare hnode
    cases Std.LawfulEqOrd.eq_of_compare hindices
    rfl

inductive ExecutionVoidReason
  | parallelJoin
  | mapTerminal
  deriving DecidableEq, Repr

inductive DurableExecutionState
  | active
  | settled (position : HistoryPosition) (outcome : WorkerOutcome)
  | voided (position : HistoryPosition) (reason : ExecutionVoidReason)
  deriving DecidableEq, Repr

/-- One execution fact. -/
structure DurableExecution where
  dispatchPosition : HistoryPosition
  nodeInstance : NodeInstanceId
  execution : ExecutionId
  occurrence : StructuralOccurrence
  attempt : PositiveInteger
  input : Value
  state : DurableExecutionState
  deriving DecidableEq, Repr

namespace DurableExecution

def isActive (e : DurableExecution) : Bool := e.state matches .active

def isSettled (e : DurableExecution) : Bool := e.state matches .settled _ _

/-- Settled by a worker crash. -/
def isCrashed (e : DurableExecution) : Bool := e.state matches .settled _ (.error .crash _)

/-- Where the execution was settled or voided. -/
def finalPosition? (e : DurableExecution) : Option HistoryPosition :=
  match e.state with
  | .active => none
  | .settled position _ => some position
  | .voided position _ => some position

/-- Every position the execution mentions. -/
def positions (e : DurableExecution) : List HistoryPosition :=
  e.dispatchPosition :: e.finalPosition?.toList

end DurableExecution

inductive ExecutionMode
  | legacyAttempts
  | nativeV2
  deriving DecidableEq, Repr

inductive ReducerError
  | inconsistentHistory
  | identityOutOfRange
  | missingSelectedValue
  | invalidDurableValue
  | missingChoiceRoute
  deriving DecidableEq, Repr

/-! ## History validation -/

/-- `INITIAL_ATTEMPT`. -/
def initialAttempt : Nat := 1

/-- No two elements have the same key, as a set insertion per element reports. -/
def distinctBy {α κ : Type} [DecidableEq κ] (key : α → κ) : List α → Bool
  | [] => true
  | a :: as => (as.all fun b => key a != key b) && distinctBy key as

/-- `HistoryVisitIdentities::validate` over a history. -/
def visitIdentitiesValid (mode : ExecutionMode) (executions : List DurableExecution) : Bool :=
  distinctBy DurableExecution.execution executions &&
    match mode with
    | .legacyAttempts => distinctBy (fun e => (e.occurrence, e.attempt)) executions
    | .nativeV2 => distinctBy (fun e => (e.occurrence, e.dispatchPosition)) executions

/-- `validate_instance_lineage` over a history: an occurrence has one node instance, and a node
instance one occurrence. -/
def instanceLineageValid : List DurableExecution → Bool
  | [] => true
  | a :: as =>
    (as.all fun b =>
        decide (a.occurrence = b.occurrence) == decide (a.nodeInstance = b.nodeInstance))
      && instanceLineageValid as

/-- The executions of one occurrence. -/
def matching (executions : List DurableExecution) (occurrence : StructuralOccurrence) :
    List DurableExecution :=
  executions.filter fun e => e.occurrence == occurrence

def dispatchedBefore (a b : DurableExecution) : Prop := a.dispatchPosition ≤ b.dispatchPosition

instance : DecidableRel dispatchedBefore := fun a b =>
  inferInstanceAs (Decidable (a.dispatchPosition ≤ b.dispatchPosition))

/-- Executions in dispatch order. -/
def sortByDispatch (executions : List DurableExecution) : List DurableExecution :=
  executions.insertionSort dispatchedBefore

def attemptedBefore (a b : DurableExecution) : Prop := a.attempt.get ≤ b.attempt.get

instance : DecidableRel attemptedBefore := fun a b =>
  inferInstanceAs (Decidable (a.attempt.get ≤ b.attempt.get))

/-- Executions in attempt order. -/
def sortByAttempt (executions : List DurableExecution) : List DurableExecution :=
  executions.insertionSort attemptedBefore

/-- `previous` is final before `current` starts. -/
def followsFinalizedVisit (previous current : DurableExecution) : Bool :=
  match previous.finalPosition? with
  | some position => position < current.dispatchPosition
  | none => false

/-- `previous` crashed before `current` starts, and `current` is its next attempt. -/
def followsFailedAttempt (previous current : DurableExecution) : Bool :=
  previous.isCrashed && followsFinalizedVisit previous current &&
    previous.attempt.get + 1 == current.attempt.get

/-- The check of `validate_native_attempt_lineage` on one window of two executions. -/
def attemptFollows (previous current : DurableExecution) : Bool :=
  if current.attempt.get = 1 then followsFinalizedVisit previous current
  else followsFailedAttempt previous current

/-- Every window of a list satisfies `r`. -/
def windows {α : Type} (r : α → α → Bool) : List α → Bool
  | [] => true
  | [_] => true
  | a :: b :: rest => r a b && windows r (b :: rest)

/-- The lineage check on the executions of one occurrence, in dispatch order. -/
def occurrenceLineageValid (executions : List DurableExecution) : Bool :=
  (match executions with
    | [] => true
    | first :: _ => first.attempt.get == initialAttempt) && windows attemptFollows executions

/-- `validate_native_attempt_lineage`. -/
def nativeAttemptLineageValid (executions : List DurableExecution) : Bool :=
  executions.all fun e => occurrenceLineageValid (sortByDispatch (matching executions e.occurrence))

/-- The attempts of every occurrence are `1, 2, …` without a gap. -/
def legacyAttemptsValid (executions : List DurableExecution) : Bool :=
  executions.all fun e =>
    let values := (sortByAttempt (matching executions e.occurrence)).map fun e => e.attempt.get
    values == List.range' 1 values.length

/-- `validate_history_for_mode`. -/
def validateHistoryForMode (executions : List DurableExecution) (mode : ExecutionMode) : Bool :=
  visitIdentitiesValid mode executions && instanceLineageValid executions &&
    match mode with
    | .legacyAttempts => legacyAttemptsValid executions
    | .nativeV2 => nativeAttemptLineageValid executions

end Zeroshot
