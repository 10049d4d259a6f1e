import Zeroshot.Protocol.Payload

set_option autoImplicit false

/-!
# Graph syntax

The language-neutral graph: executable leaves (`step`, `verifier`), five groups (`seq`, `choice`,
`par`, `loop`, `map`) and two terminals (`succeed`, `fail`). Collections the contract declares
non-empty are plain lists here; `GraphSpec` carries the proof that its whole tree respects the
collection limits, so an ill-formed graph cannot be built.

`GraphNode.induct` is the induction rule every later module uses: one case per constructor, with
the hypothesis for all children of a group.
-/

namespace Zeroshot

/-! ## Stable references -/

/-- The text before and after the last `@`. -/
def rsplitAt (text : List Char) : Option (List Char × List Char) :=
  let version := (text.reverse.takeWhile (· != '@')).reverse
  match text.reverse.dropWhile (· != '@') with
  | [] => none
  | _ :: name => some (name.reverse, version)

/-- `validate_stable_ref`: `name@version` with a positive decimal version. -/
def validateStableRef (value : String) : Bool :=
  value.utf8ByteSize ≤ 256 &&
    match rsplitAt value.toList with
    | none => false
    | some (name, version) =>
      (match name with
        | [] => false
        | first :: _ => identifierStart first) &&
      name.all identifierRest &&
      !version.isEmpty && version.head? != some '0' && version.all Char.isDigit

/-- A worker's stable reference. -/
structure WorkerRef where
  asStr : String
  valid : validateStableRef asStr = true
  deriving DecidableEq, Repr

/-- A policy's stable reference. -/
structure PolicyRef where
  asStr : String
  valid : validateStableRef asStr = true
  deriving DecidableEq, Repr

inductive PolicyDefault
  | deny
  deriving DecidableEq, Repr

structure PolicyBinding where
  policy : PolicyRef
  default : PolicyDefault
  deriving DecidableEq, Repr

/-! ## Selectors and bindings -/

inductive GraphProfile
  | full
  | singleWorker
  deriving DecidableEq, Repr

inductive DataSelector
  | state (path : FieldPath)
  | item (path : FieldPath)
  deriving DecidableEq, Repr

structure InputBinding where
  target : FieldPath
  value : DataSelector
  deriving DecidableEq, Repr

inductive NodeOutputChannel
  | out
  | signal
  | diagnostic
  deriving DecidableEq, Repr

structure NodeOutputSelector where
  node : NodeName
  channel : NodeOutputChannel
  path : FieldPath
  deriving DecidableEq, Repr

structure WriteBinding where
  value : NodeOutputSelector
  target : FieldPath
  deriving DecidableEq, Repr

inductive WorkerErrorCode
  | timeout
  | crash
  | malformed
  | refusal
  deriving DecidableEq, Repr

def WorkerErrorCode.asStr : WorkerErrorCode → String
  | timeout => "timeout"
  | crash => "crash"
  | malformed => "malformed"
  | refusal => "refusal"

inductive ControlSource
  | signal
  | error
  | group
  deriving DecidableEq, Repr

structure ControlSelector where
  name : NodeName
  source : ControlSource
  field : Option FieldName
  deriving DecidableEq, Repr

/-! ## Guards and joins -/

inductive Guard
  | inLabels (value : ControlSelector) (labels : NonEmptyEnumSet)
  | all (guards : List Guard)
  | any (guards : List Guard)
  | not (guard : Guard)
  | kOfN (count : PositiveInteger) (values : List ControlSelector) (labels : NonEmptyEnumSet)
  | kOfMap (count : PositiveInteger) (value : ControlSelector) (labels : NonEmptyEnumSet)
  deriving Repr

inductive Join
  | all
  | any
  | quorum (count : PositiveInteger)
  | first (when : Guard)
  deriving Repr

/-! ## Nodes -/

/-- `NodeInstructions`: the authored text of an agent-backed leaf. -/
structure NodeInstructions where
  asStr : String
  deriving DecidableEq, Repr

structure StepNode where
  name : NodeName
  worker : WorkerRef
  instructions : Option NodeInstructions
  input : PayloadType
  output : PayloadType
  inputBindings : List InputBinding
  writeBindings : List WriteBinding
  timeoutMs : Option PositiveInteger
  attempts : PositiveInteger
  deriving Repr

structure VerifierNode where
  name : NodeName
  worker : WorkerRef
  input : PayloadType
  output : PayloadType
  inputBindings : List InputBinding
  writeBindings : List WriteBinding
  timeoutMs : Option PositiveInteger
  attempts : PositiveInteger
  signals : OrdMap FieldName NonEmptyEnumSet
  diagnostic : PayloadType
  instructions : Option NodeInstructions
  deriving Repr

structure SucceedNode where
  name : NodeName
  output : PayloadType
  bindings : List InputBinding
  deriving Repr

/-- The reasons the compiler and the runtime keep for themselves. -/
def reservedFailReasons : List String :=
  ["unhandled", "runtime_failed", "runtime_lost", "environment_setup_failed",
    "environment_startup_failed", "environment_preparation_timeout"]

/-- `FailReason`: a label an author may use. -/
structure FailReason where
  asLabel : EnumLabel
  authored : asLabel.asStr ∉ reservedFailReasons
  deriving Repr

structure FailNode where
  name : NodeName
  reason : FailReason
  deriving Repr

/-- What every group declares: its name, its state type and the paths it promotes. -/
structure Group where
  name : NodeName
  state : PayloadType
  promotedStatePaths : List FieldPath
  deriving Repr

inductive GraphNode
  | step (node : StepNode)
  | verifier (node : VerifierNode)
  | seq (group : Group) (children : List GraphNode)
  | choice (group : Group) (branches : List (Guard × GraphNode)) (otherwise : Option GraphNode)
  | par (group : Group) (branches : List GraphNode) (join : Join)
  | loop (group : Group) (body : GraphNode) (untilGuard : Option Guard)
      (maxIterations : PositiveInteger) (maxIterationsInput : Option FieldPath)
  | map (group : Group) (body : GraphNode) (overItems : DataSelector) (maxItems : PositiveInteger)
  | succeed (node : SucceedNode)
  | fail (node : FailNode)
  deriving Repr

namespace GraphNode

def name : GraphNode → NodeName
  | .step node => node.name
  | .verifier node => node.name
  | .seq group _ => group.name
  | .choice group _ _ => group.name
  | .par group _ _ => group.name
  | .loop group _ _ _ _ => group.name
  | .map group _ _ _ => group.name
  | .succeed node => node.name
  | .fail node => node.name

/-- The group header, for the five group nodes. -/
def group? : GraphNode → Option Group
  | .seq group _ => some group
  | .choice group _ _ => some group
  | .par group _ _ => some group
  | .loop group _ _ _ _ => some group
  | .map group _ _ _ => some group
  | .step _ | .verifier _ | .succeed _ | .fail _ => none

def state (node : GraphNode) : Option PayloadType := node.group?.map Group.state

/-- `child_nodes`: the children in authored order. -/
def children : GraphNode → List GraphNode
  | .seq _ children => children
  | .choice _ branches otherwise => branches.map Prod.snd ++ otherwise.toList
  | .par _ branches _ => branches
  | .loop _ body _ _ _ => [body]
  | .map _ body _ _ => [body]
  | .step _ | .verifier _ | .succeed _ | .fail _ => []

/-- Whether the node runs a worker. -/
def isExecutable : GraphNode → Bool
  | .step _ | .verifier _ => true
  | _ => false

/-- Whether the node ends the run. -/
def isTerminal : GraphNode → Bool
  | .succeed _ | .fail _ => true
  | _ => false

/-- Induction over the tree, with the hypothesis for all children at once. -/
theorem induct {motive : GraphNode → Prop}
    (step : ∀ node, motive (.step node))
    (verifier : ∀ node, motive (.verifier node))
    (seq : ∀ group children, (∀ c ∈ children, motive c) → motive (.seq group children))
    (choice : ∀ group branches otherwise, (∀ b ∈ branches, motive b.2) →
      (∀ c ∈ otherwise, motive c) → motive (.choice group branches otherwise))
    (par : ∀ group branches join, (∀ c ∈ branches, motive c) → motive (.par group branches join))
    (loop : ∀ group body untilGuard maxIterations maxIterationsInput, motive body →
      motive (.loop group body untilGuard maxIterations maxIterationsInput))
    (map : ∀ group body overItems maxItems, motive body →
      motive (.map group body overItems maxItems))
    (succeed : ∀ node, motive (.succeed node))
    (fail : ∀ node, motive (.fail node)) (node : GraphNode) : motive node :=
  @GraphNode.rec motive
    (fun nodes => ∀ c ∈ nodes, motive c)
    (fun branches => ∀ b ∈ branches, motive b.2)
    (fun otherwise => ∀ c ∈ otherwise, motive c)
    (fun branch => motive branch.2)
    step verifier seq choice par loop map succeed fail
    (fun _ h => nomatch h)
    (fun _ _ hhead htail _ h => (List.mem_cons.mp h).elim (fun he => he ▸ hhead) (htail _))
    (fun _ h => nomatch h)
    (fun _ _ hhead htail _ h => (List.mem_cons.mp h).elim (fun he => he ▸ hhead) (htail _))
    (fun _ h => nomatch h)
    (fun _ hval _ h => Option.some.inj h ▸ hval)
    (fun _ _ hsnd => hsnd)
    node

/-- Induction from the children to the node. -/
theorem induct_children {motive : GraphNode → Prop}
    (step : ∀ node, (∀ c ∈ node.children, motive c) → motive node) (node : GraphNode) :
    motive node := by
  induction node using GraphNode.induct with
  | step node | verifier node | succeed node | fail node =>
    exact step _ fun _ h => absurd h List.not_mem_nil
  | seq group children ih | par group branches join ih => exact step _ ih
  | loop group body untilGuard maxIterations maxIterationsInput ih
  | map group body overItems maxItems ih =>
    exact step _ fun c hc => List.mem_singleton.mp hc ▸ ih
  | choice group branches otherwise ihbranches ihotherwise =>
    refine step _ fun c hc => ?_
    rw [children, List.mem_append, List.mem_map, Option.mem_toList] at hc
    rcases hc with ⟨b, hb, rfl⟩ | hother
    · exact ihbranches b hb
    · exact ihotherwise c hother

end GraphNode

/-! ## Descendants -/

mutual

/-- The node and everything below it, in authored order. -/
def GraphNode.descendants : GraphNode → List GraphNode
  | .seq group children => .seq group children :: descendantsOf children
  | .choice group branches otherwise =>
    .choice group branches otherwise ::
      (descendantsOfBranches branches ++ descendantsOfOption otherwise)
  | .par group branches join => .par group branches join :: descendantsOf branches
  | .loop group body untilGuard maxIterations maxIterationsInput =>
    .loop group body untilGuard maxIterations maxIterationsInput :: body.descendants
  | .map group body overItems maxItems => .map group body overItems maxItems :: body.descendants
  | .step node => [.step node]
  | .verifier node => [.verifier node]
  | .succeed node => [.succeed node]
  | .fail node => [.fail node]

def descendantsOf : List GraphNode → List GraphNode
  | [] => []
  | node :: nodes => node.descendants ++ descendantsOf nodes

def descendantsOfBranches : List (Guard × GraphNode) → List GraphNode
  | [] => []
  | (_, node) :: branches => node.descendants ++ descendantsOfBranches branches

def descendantsOfOption : Option GraphNode → List GraphNode
  | none => []
  | some node => node.descendants

end

/-- The names of a node and everything below it. -/
def GraphNode.names (node : GraphNode) : List NodeName := node.descendants.map GraphNode.name

theorem descendantsOf_eq (nodes : List GraphNode) :
    descendantsOf nodes = nodes.flatMap GraphNode.descendants := by
  induction nodes with
  | nil => rfl
  | cons node nodes ih => rw [descendantsOf, ih, List.flatMap_cons]

theorem descendantsOfBranches_eq (branches : List (Guard × GraphNode)) :
    descendantsOfBranches branches = (branches.map Prod.snd).flatMap GraphNode.descendants := by
  induction branches with
  | nil => rfl
  | cons branch branches ih => rw [descendantsOfBranches, ih, List.map_cons, List.flatMap_cons]

/-- **A node followed by the descendants of its children.** -/
theorem GraphNode.descendants_eq (node : GraphNode) :
    node.descendants = node :: node.children.flatMap descendants := by
  cases node with
  | choice group branches otherwise =>
    rw [descendants, descendantsOfBranches_eq, children, List.flatMap_append]
    cases otherwise <;> simp [descendantsOfOption]
  | seq | par => simp [descendants, children, descendantsOf_eq]
  | loop | map => simp [descendants, children]
  | step | verifier | succeed | fail => rfl

/-! ## Well-formed specifications -/

/-- The limits of `NonEmptyVec`. -/
def collectionLimits {α : Type} (values : List α) : Bool :=
  !values.isEmpty && values.length ≤ maxCollectionItems

mutual

/-- Every collection of the guard is within the limits. -/
def Guard.wellFormed : Guard → Bool
  | .inLabels _ _ => true
  | .all guards => collectionLimits guards && guardsWellFormed guards
  | .any guards => collectionLimits guards && guardsWellFormed guards
  | .not guard => guard.wellFormed
  | .kOfN _ values _ => collectionLimits values
  | .kOfMap _ _ _ => true

def guardsWellFormed : List Guard → Bool
  | [] => true
  | guard :: guards => guard.wellFormed && guardsWellFormed guards

end

/-- Keys in strictly increasing order. -/
def increasingKeys {κ α : Type} [Ord κ] : List (κ × α) → Bool
  | [] => true
  | [_] => true
  | a :: b :: rest => compare a.1 b.1 == .lt && increasingKeys (b :: rest)

mutual

/-- Every record of the type lists its fields in increasing order. -/
def PayloadType.wellFormed : PayloadType → Bool
  | .record fields => increasingKeys fields && fieldsWellFormed fields
  | .array items => items.wellFormed
  | _ => true

def fieldsWellFormed : List (FieldName × Bool × PayloadType) → Bool
  | [] => true
  | (_, _, type) :: fields => type.wellFormed && fieldsWellFormed fields

end

/-- The node's own collections and types are within the limits. -/
def GraphNode.locallyWellFormed : GraphNode → Bool
  | .step node => node.input.wellFormed && node.output.wellFormed
  | .verifier node =>
    node.input.wellFormed && node.output.wellFormed && node.diagnostic.wellFormed &&
      increasingKeys node.signals
  | .seq group children => group.state.wellFormed && collectionLimits children
  | .choice group branches _ =>
    group.state.wellFormed && collectionLimits branches &&
      branches.all fun branch => branch.1.wellFormed
  | .par group branches join =>
    group.state.wellFormed && collectionLimits branches &&
      match join with
      | .first guard => guard.wellFormed
      | _ => true
  | .loop group _ untilGuard _ _ => group.state.wellFormed && untilGuard.all Guard.wellFormed
  | .map group _ _ _ => group.state.wellFormed
  | .succeed node => node.output.wellFormed
  | .fail _ => true

/-- A graph specification. The policy binding is opaque to verification and reduction. -/
structure GraphSpec where
  profile : GraphProfile
  initialInput : PayloadType
  policy : PolicyBinding
  root : GraphNode
  wellFormed :
    (initialInput.wellFormed && root.descendants.all GraphNode.locallyWellFormed) = true

end Zeroshot
