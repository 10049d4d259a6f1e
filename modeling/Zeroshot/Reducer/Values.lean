import Zeroshot.Reducer.History

set_option autoImplicit false

/-!
# Evaluation contexts and durable values

The context one evaluation carries: the state value, the control facts guards read, the output
channels write bindings read, and the paths written in the current scope. Visit counters are
control facts under a hidden field of the executable's own key, so they survive exactly where
control facts are merged.

`bindPayload`, `select`, `setPath` and `promotedValue` copy raw JSON; they fail only with the two
errors of a selector that does not resolve.
-/

namespace Zeroshot

/-! ## Contexts -/

/-- The key of a control fact. -/
structure ControlKey where
  node : NodeName
  source : ControlSource
  field : Option String
  mapIndices : List Nat
  deriving DecidableEq, Repr

def ControlSource.index : ControlSource → Nat
  | signal => 0
  | error => 1
  | group => 2

instance : Ord ControlKey where
  compare a b :=
    (compare a.node b.node).then <| (compare a.source.index b.source.index).then <|
      (compare a.field b.field).then (compare a.mapIndices b.mapIndices)

instance : Std.LawfulEqOrd ControlKey where
  compare_self {a} := by
    change (compare a.node a.node).then _ = .eq
    simp only [Std.ReflOrd.compare_self]
    rfl
  eq_of_compare {a b} h := by
    obtain ⟨hnode, h⟩ := Ordering.then_eq_eq.mp h
    obtain ⟨hsource, h⟩ := Ordering.then_eq_eq.mp h
    obtain ⟨hfield, hindices⟩ := Ordering.then_eq_eq.mp h
    obtain ⟨_, sa, _, _⟩ := a
    obtain ⟨_, sb, _, _⟩ := b
    cases Std.LawfulEqOrd.eq_of_compare hnode
    cases Std.LawfulEqOrd.eq_of_compare hfield
    cases Std.LawfulEqOrd.eq_of_compare hindices
    have hs : sa.index = sb.index := Std.LawfulEqOrd.eq_of_compare hsource
    cases sa <;> cases sb <;> first | rfl | cases hs

/-- A control fact: a label, or the number of the last visit of an executable. -/
inductive Control
  | label (text : String)
  | visit (number : Nat)
  deriving DecidableEq, Repr

/-- The text a guard compares. -/
def Control.asStr : Control → String
  | label text => text
  | visit number => toString number

/-- The outputs of one settled executable. -/
structure Channels where
  output : Value
  signals : OrdMap String String
  diagnostic : Option Value
  deriving DecidableEq, Repr

structure Context where
  state : Value
  controls : OrdMap ControlKey Control
  channels : OrdMap StructuralOccurrence Channels
  localWrites : OrdSet FieldPath
  deriving DecidableEq, Repr

namespace Context

def new (state : Value) : Context := ⟨state, [], [], []⟩

/-- The context with no path written yet. -/
def clearWrites (context : Context) : Context := { context with localWrites := [] }

end Context

/-! ## Visits -/

/-- `visit_key`. -/
def visitKey (name : NodeName) (mapIndices : List Nat) : ControlKey :=
  ⟨name, .group, some "__reducer_visit", mapIndices⟩

/-- The number of visits recorded for an executable. -/
def lastVisit (name : NodeName) (mapIndices : List Nat) (controls : OrdMap ControlKey Control) :
    Nat :=
  match OrdMap.get? controls (visitKey name mapIndices) with
  | some (.visit number) => number
  | _ => 0

/-- `next_visit`. -/
def nextVisit (name : NodeName) (mapIndices : List Nat) (controls : OrdMap ControlKey Control) :
    Nat :=
  lastVisit name mapIndices controls + 1

/-- `mark_visit`. -/
def markVisit (name : NodeName) (mapIndices : List Nat) (visit : Nat) (context : Context) :
    Context :=
  { context with
    controls := OrdMap.insert (visitKey name mapIndices) (.visit visit) context.controls }

/-! ## Selecting and setting -/

/-- The value below the given segments. -/
def selectSegments : Value → List FieldName → Except ReducerError Value
  | value, [] => .ok value
  | value, segment :: segments =>
    match value.asObject.bind fun object => OrdMap.get? object segment.asStr with
    | some child => selectSegments child segments
    | none => .error .missingSelectedValue

/-- `select`. -/
def select (value : Value) (path : FieldPath) : Except ReducerError Value :=
  selectSegments value path.segments

/-- `select_data`. -/
def selectData (selector : DataSelector) (state : Value) (item : Option Value) :
    Except ReducerError Value :=
  match selector with
  | .state path => select state path
  | .item path =>
    match item with
    | some item => select item path
    | none => .error .missingSelectedValue

/-- `set_path` on the segments of a path. Missing parents are created as empty objects. -/
def setSegments (value : Value) (selected : Value) : List FieldName → Except ReducerError Value
  | [] => .error .missingSelectedValue
  | [last] =>
    match value.asObject with
    | some object => .ok (.object (OrdMap.insert last.asStr selected object))
    | none => .error .invalidDurableValue
  | segment :: next :: rest =>
    match value.asObject with
    | some object => do
      let child ← setSegments ((OrdMap.get? object segment.asStr).getD (.object [])) selected
        (next :: rest)
      .ok (.object (OrdMap.insert segment.asStr child object))
    | none => .error .invalidDurableValue

/-- `set_path`. -/
def setPath (value : Value) (path : FieldPath) (selected : Value) : Except ReducerError Value :=
  setSegments value selected path.segments

/-- The binding loop of `bind_payload`. -/
def bindInto (state : Value) (item : Option Value) :
    Value → List InputBinding → Except ReducerError Value
  | value, [] => .ok value
  | value, binding :: bindings => do
    let selected ← selectData binding.value state item
    let value ← setPath value binding.target selected
    bindInto state item value bindings

/-- `bind_payload`. -/
def bindPayload (bindings : List InputBinding) (state : Value) (item : Option Value) :
    Except ReducerError Value :=
  if bindings.isEmpty then .ok .null else bindInto state item (.object []) bindings

/-! ## Writes -/

/-- `bound_channel_value`. -/
def boundChannelValue (context : Context) (binding : WriteBinding) (mapIndices : List Nat) :
    Except ReducerError Value :=
  match OrdMap.get? context.channels ⟨binding.value.node, mapIndices⟩ with
  | none => .error .missingSelectedValue
  | some channels =>
    match binding.value.channel with
    | .out => select channels.output binding.value.path
    | .diagnostic =>
      match channels.diagnostic with
      | some diagnostic => select diagnostic binding.value.path
      | none => .error .missingSelectedValue
    | .signal =>
      match binding.value.path.segments.head?.bind fun field =>
        OrdMap.get? channels.signals field.asStr with
      | some label => .ok (.string label)
      | none => .error .missingSelectedValue

/-- The binding loop of `apply_writes`. -/
def applyBindings (mapIndices : List Nat) :
    Context → List WriteBinding → Except ReducerError Context
  | context, [] => .ok context
  | context, binding :: bindings => do
    let value ← boundChannelValue context binding mapIndices
    let state ← setPath context.state binding.target value
    applyBindings mapIndices
      { context with state, localWrites := OrdSet.insert binding.target context.localWrites }
      bindings

/-- `apply_writes`. -/
def applyWrites (context : Context) (name : NodeName) (channel : Channels)
    (bindings : List WriteBinding) (mapIndices : List Nat) : Except ReducerError Context :=
  applyBindings mapIndices
    { context with channels := OrdMap.insert ⟨name, mapIndices⟩ channel context.channels } bindings

/-! ## Promotion -/

/-- The overlaps of written and promoted paths, each at its deeper end. -/
def writeCandidates (localWrites : OrdSet FieldPath) (promoted : List FieldPath) :
    OrdSet FieldPath :=
  OrdSet.ofList <| promoted.flatMap fun path => localWrites.filterMap fun written =>
    if path.contains written then some written
    else if written.contains path then some path
    else none

/-- `promoted_write_paths`: the outermost candidates. -/
def promotedWritePaths (localWrites : OrdSet FieldPath) (promoted : List FieldPath) :
    OrdSet FieldPath :=
  let candidates := writeCandidates localWrites promoted
  candidates.filter fun candidate =>
    !candidates.any fun other => other != candidate && other.contains candidate

/-- `promoted_value`. -/
def promotedValue (state : Value) (path : FieldPath) (writes : OrdSet FieldPath)
    (optional : Bool) : Except ReducerError (Option Value) :=
  if optional && (promotedWritePaths writes [path]).isEmpty then .ok none
  else
    match select state path with
    | .ok value => .ok (some value)
    | .error .missingSelectedValue => if optional then .ok none else .error .missingSelectedValue
    | .error error => .error error

/-- `PromotedValue`. -/
structure PromotedValue where
  path : FieldPath
  value : Value
  deriving DecidableEq, Repr

/-- The values a group promotes out of its local scope, in the order of its paths. -/
def promotedValues (state : Value) (writes : OrdSet FieldPath) (optional : OrdSet FieldPath) :
    List FieldPath → Except ReducerError (List PromotedValue)
  | [] => .ok []
  | path :: paths => do
    let value ← promotedValue state path writes (OrdSet.contains optional path)
    let values ← promotedValues state writes optional paths
    match value with
    | some value => .ok (⟨path, value⟩ :: values)
    | none => .ok values

/-- The path loop of `promote`: select in the local state, set in the parent's. -/
def promotePaths (local' : Context) (optional : OrdSet FieldPath) :
    Value → List FieldPath → Except ReducerError (Value × List PromotedValue)
  | parent, [] => .ok (parent, [])
  | parent, path :: paths => do
    match ← promotedValue local'.state path local'.localWrites (OrdSet.contains optional path) with
    | none => promotePaths local' optional parent paths
    | some value =>
      let parent ← setPath parent path value
      let (parent, values) ← promotePaths local' optional parent paths
      .ok (parent, ⟨path, value⟩ :: values)

/-- The path loop of a join: copy what one winner wrote into the joined context. -/
def copyWrites (branch : Context) : Context → List FieldPath → Except ReducerError Context
  | joined, [] => .ok joined
  | joined, path :: paths => do
    let value ← select branch.state path
    let state ← setPath joined.state path value
    copyWrites branch { joined with state, localWrites := OrdSet.insert path joined.localWrites }
      paths

/-- The value every item left at a path. -/
def collectValues (path : FieldPath) : List Context → Except ReducerError (List Value)
  | [] => .ok []
  | item :: items => do
    let value ← select item.state path
    let values ← collectValues path items
    .ok (value :: values)

/-- The path loop of `finish_map`: a path every item wrote becomes the array of their values; any
other path is left alone. -/
def collectItems (items : List Context) :
    Context → List FieldPath → Except ReducerError (Context × List FieldPath)
  | local', [] => .ok (local', [])
  | local', path :: paths =>
    if items.any fun item => (promotedWritePaths item.localWrites [path]).isEmpty then
      collectItems items local' paths
    else do
      let values ← collectValues path items
      let state ← setPath local'.state path (.array values)
      let (local', collected) ← collectItems items
        { local' with state, localWrites := OrdSet.insert path local'.localWrites } paths
      .ok (local', path :: collected)

/-! ## Merging facts -/

/-- `clear_scoped_runtime_facts`: visit counters stay. -/
def clearScopedRuntimeFacts (names : List NodeName) (mapIndices : List Nat) (context : Context) :
    Context :=
  { context with
    controls := context.controls.filter fun entry =>
      !names.contains entry.1.node || !mapIndices.isPrefixOf entry.1.mapIndices ||
        (entry.1.source == .group && entry.1.field == some "__reducer_visit")
    channels := context.channels.filter fun entry =>
      !names.contains entry.1.node || !mapIndices.isPrefixOf entry.1.mapIndices }

/-- `merge_runtime_facts`. -/
def mergeRuntimeFacts (source target : Context) : Context :=
  { target with
    controls := OrdMap.extend target.controls source.controls
    channels := OrdMap.extend target.channels source.channels }

/-- `merge_scoped_runtime_facts`. -/
def mergeScopedRuntimeFacts (names : List NodeName) (mapIndices : List Nat)
    (source target : Context) : Context :=
  { target with
    controls := OrdMap.extend target.controls <| source.controls.filter fun entry =>
      names.contains entry.1.node && mapIndices.isPrefixOf entry.1.mapIndices
    channels := OrdMap.extend target.channels <| source.channels.filter fun entry =>
      names.contains entry.1.node && mapIndices.isPrefixOf entry.1.mapIndices }

/-! ## Facts collected from the root -/

mutual

/-- Every node of the tree with the number of maps around it. -/
def GraphNode.withDepths (depth : Nat) : GraphNode → List (GraphNode × Nat)
  | .seq group children => (.seq group children, depth) :: withDepthsOf depth children
  | .choice group branches otherwise =>
    (.choice group branches otherwise, depth) ::
      (withDepthsOfBranches depth branches ++ withDepthsOfOption depth otherwise)
  | .par group branches join => (.par group branches join, depth) :: withDepthsOf depth branches
  | .loop group body untilGuard maxIterations maxIterationsInput =>
    (.loop group body untilGuard maxIterations maxIterationsInput, depth) ::
      body.withDepths depth
  | .map group body overItems maxItems => (.map group body overItems maxItems, depth) ::
      body.withDepths (depth + 1)
  | .step node => [(.step node, depth)]
  | .verifier node => [(.verifier node, depth)]
  | .succeed node => [(.succeed node, depth)]
  | .fail node => [(.fail node, depth)]

def withDepthsOf (depth : Nat) : List GraphNode → List (GraphNode × Nat)
  | [] => []
  | node :: nodes => node.withDepths depth ++ withDepthsOf depth nodes

def withDepthsOfBranches (depth : Nat) : List (Guard × GraphNode) → List (GraphNode × Nat)
  | [] => []
  | (_, node) :: branches => node.withDepths depth ++ withDepthsOfBranches depth branches

def withDepthsOfOption (depth : Nat) : Option GraphNode → List (GraphNode × Nat)
  | none => []
  | some node => node.withDepths depth

end

/-- `collect_map_depths`. -/
def collectMapDepths (root : GraphNode) : OrdMap NodeName Nat :=
  (root.withDepths 0).foldl (fun depths entry => OrdMap.insert entry.1.name entry.2 depths) []

/-- `collect_executable_depths`. -/
def collectExecutableDepths (root : GraphNode) : OrdMap NodeName Nat :=
  ((root.withDepths 0).filter fun entry => entry.1.isExecutable).foldl
    (fun depths entry => OrdMap.insert entry.1.name entry.2 depths) []

/-- `promotion_path_is_optional` on the segments of a path. -/
def segmentsOptional (optional : Bool) : PayloadType → List FieldName → Except ReducerError Bool
  | _, [] => .ok optional
  | .record fields, part :: parts =>
    match OrdMap.get? fields part with
    | some (required, type) => segmentsOptional (optional || !required) type parts
    | none => .error .missingSelectedValue
  | _, _ :: _ => .error .missingSelectedValue

/-- The promoted paths of a group that may be absent. -/
def optionalPaths (schema : PayloadType) :
    List FieldPath → OrdSet FieldPath → Except ReducerError (OrdSet FieldPath)
  | [], optional => .ok optional
  | path :: paths, optional => do
    let isOptional ← segmentsOptional false schema path.segments
    optionalPaths schema paths (if isOptional then OrdSet.insert path optional else optional)

/-- `collect_optional_promotions`. -/
def collectOptionalPromotions :
    List GraphNode → OrdMap NodeName (OrdSet FieldPath) →
      Except ReducerError (OrdMap NodeName (OrdSet FieldPath))
  | [], promotions => .ok promotions
  | node :: nodes, promotions =>
    match node.group? with
    | none => collectOptionalPromotions nodes promotions
    | some group => do
      let optional ← optionalPaths group.state group.promotedStatePaths []
      collectOptionalPromotions nodes (OrdMap.insert group.name optional promotions)

end Zeroshot
