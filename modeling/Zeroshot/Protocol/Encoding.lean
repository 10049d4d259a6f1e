import Zeroshot.Protocol.Graph

set_option autoImplicit false

/-!
# Graphs as JSON

The JSON form of the graph contract: tagged objects for the variants, camel-case field names, and
optional fields that are left out where the contract skips them. Every number is an integer, so no
encoded value holds a float (`GraphNode.toValue_floatFree`).
-/

namespace Zeroshot

/-! ## Values without floats -/

mutual

/-- No number inside the value is a float. -/
def Value.floatFree : Value → Bool
  | .null => true
  | .bool _ => true
  | .number (.int _) => true
  | .number (.float _) => false
  | .string _ => true
  | .array items => itemsFloatFree items
  | .object fields => fieldsFloatFree fields

def itemsFloatFree : List Value → Bool
  | [] => true
  | item :: items => item.floatFree && itemsFloatFree items

def fieldsFloatFree : List (String × Value) → Bool
  | [] => true
  | (_, value) :: fields => value.floatFree && fieldsFloatFree fields

end

theorem itemsFloatFree_of {items : List Value} (h : ∀ item ∈ items, item.floatFree = true) :
    itemsFloatFree items = true := by
  induction items with
  | nil => rfl
  | cons item items ih =>
    rw [List.forall_mem_cons] at h
    rw [itemsFloatFree, h.1, ih h.2]
    rfl

theorem fieldsFloatFree_append (first second : List (String × Value)) :
    fieldsFloatFree (first ++ second) = (fieldsFloatFree first && fieldsFloatFree second) := by
  induction first with
  | nil => rfl
  | cons field first ih =>
    rw [List.cons_append, fieldsFloatFree, fieldsFloatFree, ih, Bool.and_assoc]

theorem fieldsFloatFree_of {fields : List (String × Value)}
    (h : ∀ field ∈ fields, field.2.floatFree = true) : fieldsFloatFree fields = true := by
  induction fields with
  | nil => rfl
  | cons field fields ih =>
    rw [List.forall_mem_cons] at h
    rw [fieldsFloatFree, h.1, ih h.2]
    rfl

/-- A list whose elements are encoded one by one. -/
def listValue {α : Type} (encode : α → Value) (values : List α) : Value :=
  .array (values.map encode)

theorem listValue_floatFree {α : Type} {encode : α → Value} {values : List α}
    (h : ∀ value ∈ values, (encode value).floatFree = true) :
    (listValue encode values).floatFree = true := by
  rw [listValue, Value.floatFree]
  refine itemsFloatFree_of fun item hitem => ?_
  obtain ⟨value, hvalue, rfl⟩ := List.mem_map.mp hitem
  exact h value hvalue

/-- A field that is left out when it has no value. -/
def optionalField {α : Type} (name : String) (encode : α → Value) (value : Option α) :
    List (String × Value) :=
  (value.map fun value => (name, encode value)).toList

theorem optionalField_floatFree {α : Type} {name : String} {encode : α → Value} {value : Option α}
    (h : ∀ a ∈ value, (encode a).floatFree = true) :
    fieldsFloatFree (optionalField name encode value) = true := by
  cases value with
  | none => rfl
  | some a =>
    rw [optionalField]
    exact fieldsFloatFree_of fun field hfield => by
      rw [List.mem_singleton.mp hfield]
      exact h a rfl

/-! ## Scalars -/

def Identifier.toValue {kind : IdentifierKind} (identifier : Identifier kind) : Value :=
  .string identifier.asStr

def FieldPath.toValue (path : FieldPath) : Value := listValue Identifier.toValue path.segments

def PositiveInteger.toValue (integer : PositiveInteger) : Value := .number (.int integer.get)

def NonEmptyEnumSet.toValue (labels : NonEmptyEnumSet) : Value :=
  listValue Identifier.toValue labels.values

@[simp] theorem Identifier.toValue_floatFree {kind : IdentifierKind}
    (identifier : Identifier kind) :
    identifier.toValue.floatFree = true := rfl

@[simp] theorem PositiveInteger.toValue_floatFree (integer : PositiveInteger) :
    integer.toValue.floatFree = true := rfl

@[simp] theorem FieldPath.toValue_floatFree (path : FieldPath) : path.toValue.floatFree = true :=
  listValue_floatFree fun _ _ => rfl

@[simp] theorem NonEmptyEnumSet.toValue_floatFree (labels : NonEmptyEnumSet) :
    labels.toValue.floatFree = true := listValue_floatFree fun _ _ => rfl

/-! ## Payload types -/

mutual

def PayloadType.toValue : PayloadType → Value
  | .null => .object [("kind", .string "null")]
  | .boolean => .object [("kind", .string "boolean")]
  | .integer => .object [("kind", .string "integer")]
  | .number => .object [("kind", .string "number")]
  | .string => .object [("kind", .string "string")]
  | .record fields => .object [("kind", .string "record"), ("fields", .object (fieldValues fields))]
  | .array items => .object [("kind", .string "array"), ("items", items.toValue)]
  | .enum values => .object [("kind", .string "enum"), ("values", values.toValue)]

def fieldValues : List (FieldName × Bool × PayloadType) → List (String × Value)
  | [] => []
  | (name, required, type) :: fields =>
    (name.asStr, .object [("type", type.toValue), ("required", .bool required)]) ::
      fieldValues fields

end

mutual

theorem PayloadType.toValue_floatFree : ∀ type : PayloadType, type.toValue.floatFree = true
  | .null | .boolean | .integer | .number | .string => rfl
  | .record fields => by
    simp [PayloadType.toValue, Value.floatFree, fieldsFloatFree, fieldValues_floatFree fields]
  | .array items => by
    simp [PayloadType.toValue, Value.floatFree, fieldsFloatFree,
      PayloadType.toValue_floatFree items]
  | .enum values => by simp [PayloadType.toValue, Value.floatFree, fieldsFloatFree]

theorem fieldValues_floatFree : ∀ fields : List (FieldName × Bool × PayloadType),
    fieldsFloatFree (fieldValues fields) = true
  | [] => rfl
  | (_, _, type) :: fields => by
    simp [fieldValues, fieldsFloatFree, Value.floatFree, PayloadType.toValue_floatFree type,
      fieldValues_floatFree fields]

end

attribute [simp] PayloadType.toValue_floatFree

/-! ## Selectors and bindings -/

def DataSelector.toValue : DataSelector → Value
  | .state path => .object [("source", .string "state"), ("path", path.toValue)]
  | .item path => .object [("source", .string "item"), ("path", path.toValue)]

def InputBinding.toValue (binding : InputBinding) : Value :=
  .object [("target", binding.target.toValue), ("value", binding.value.toValue)]

def NodeOutputChannel.asStr : NodeOutputChannel → String
  | out => "out"
  | signal => "signal"
  | diagnostic => "diagnostic"

def NodeOutputSelector.toValue (selector : NodeOutputSelector) : Value :=
  .object [("node", selector.node.toValue), ("channel", .string selector.channel.asStr),
    ("path", selector.path.toValue)]

def WriteBinding.toValue (binding : WriteBinding) : Value :=
  .object [("value", binding.value.toValue), ("target", binding.target.toValue)]

def ControlSource.asStr : ControlSource → String
  | signal => "signal"
  | error => "error"
  | group => "group"

def ControlSelector.toValue (selector : ControlSelector) : Value :=
  .object [("name", selector.name.toValue), ("source", .string selector.source.asStr),
    ("field", (selector.field.map Identifier.toValue).getD .null)]

@[simp] theorem DataSelector.toValue_floatFree (selector : DataSelector) :
    selector.toValue.floatFree = true := by
  cases selector <;> simp [toValue, Value.floatFree, fieldsFloatFree]

@[simp] theorem InputBinding.toValue_floatFree (binding : InputBinding) :
    binding.toValue.floatFree = true := by
  simp [toValue, Value.floatFree, fieldsFloatFree]

@[simp] theorem WriteBinding.toValue_floatFree (binding : WriteBinding) :
    binding.toValue.floatFree = true := by
  simp [toValue, NodeOutputSelector.toValue, Value.floatFree, fieldsFloatFree]

@[simp] theorem ControlSelector.toValue_floatFree (selector : ControlSelector) :
    selector.toValue.floatFree = true := by
  cases hfield : selector.field <;>
    simp [toValue, hfield, Value.floatFree, fieldsFloatFree]

/-! ## Guards and joins -/

mutual

def Guard.toValue : Guard → Value
  | .inLabels value labels =>
    .object [("kind", .string "in"), ("value", value.toValue), ("labels", labels.toValue)]
  | .all guards => .object [("kind", .string "all"), ("guards", .array (guardValues guards))]
  | .any guards => .object [("kind", .string "any"), ("guards", .array (guardValues guards))]
  | .not guard => .object [("kind", .string "not"), ("guard", guard.toValue)]
  | .kOfN count values labels =>
    .object [("kind", .string "k_of_n"), ("count", count.toValue),
      ("values", listValue ControlSelector.toValue values), ("labels", labels.toValue)]
  | .kOfMap count value labels =>
    .object [("kind", .string "k_of_map"), ("count", count.toValue), ("value", value.toValue),
      ("labels", labels.toValue)]

def guardValues : List Guard → List Value
  | [] => []
  | guard :: guards => guard.toValue :: guardValues guards

end

mutual

theorem Guard.toValue_floatFree : ∀ guard : Guard, guard.toValue.floatFree = true
  | .inLabels _ _ => by simp [Guard.toValue, Value.floatFree, fieldsFloatFree]
  | .all guards => by
    simp [Guard.toValue, Value.floatFree, fieldsFloatFree, guardValues_floatFree guards]
  | .any guards => by
    simp [Guard.toValue, Value.floatFree, fieldsFloatFree, guardValues_floatFree guards]
  | .not guard => by
    simp [Guard.toValue, Value.floatFree, fieldsFloatFree, Guard.toValue_floatFree guard]
  | .kOfN _ values _ => by
    have hvalues : (listValue ControlSelector.toValue values).floatFree = true :=
      listValue_floatFree fun _ _ => ControlSelector.toValue_floatFree _
    simp [Guard.toValue, Value.floatFree, fieldsFloatFree, hvalues]
  | .kOfMap _ _ _ => by simp [Guard.toValue, Value.floatFree, fieldsFloatFree]

theorem guardValues_floatFree : ∀ guards : List Guard, itemsFloatFree (guardValues guards) = true
  | [] => rfl
  | guard :: guards => by
    simp [guardValues, itemsFloatFree, Guard.toValue_floatFree guard, guardValues_floatFree guards]

end

attribute [simp] Guard.toValue_floatFree

def Join.toValue : Join → Value
  | .all => .object [("kind", .string "all")]
  | .any => .object [("kind", .string "any")]
  | .quorum count => .object [("kind", .string "quorum"), ("count", count.toValue)]
  | .first when => .object [("kind", .string "first"), ("when", when.toValue)]

@[simp] theorem Join.toValue_floatFree (join : Join) : join.toValue.floatFree = true := by
  cases join <;> simp [toValue, Value.floatFree, fieldsFloatFree]

/-! ## Nodes -/

def NodeInstructions.toValue (instructions : NodeInstructions) : Value := .string instructions.asStr

def StepNode.toValue (node : StepNode) : Value :=
  .object ([("kind", .string "step"), ("name", node.name.toValue),
      ("worker", .string node.worker.asStr)] ++
    optionalField "instructions" NodeInstructions.toValue node.instructions ++
    [("input", node.input.toValue), ("output", node.output.toValue),
      ("inputBindings", listValue InputBinding.toValue node.inputBindings),
      ("writeBindings", listValue WriteBinding.toValue node.writeBindings)] ++
    optionalField "timeoutMs" PositiveInteger.toValue node.timeoutMs ++
    [("attempts", node.attempts.toValue)])

def VerifierNode.toValue (node : VerifierNode) : Value :=
  .object ([("kind", .string "verifier"), ("name", node.name.toValue),
      ("worker", .string node.worker.asStr), ("input", node.input.toValue),
      ("output", node.output.toValue),
      ("inputBindings", listValue InputBinding.toValue node.inputBindings),
      ("writeBindings", listValue WriteBinding.toValue node.writeBindings)] ++
    optionalField "timeoutMs" PositiveInteger.toValue node.timeoutMs ++
    [("attempts", node.attempts.toValue),
      ("signals", .object (node.signals.map fun entry => (entry.1.asStr, entry.2.toValue))),
      ("diagnostic", node.diagnostic.toValue)] ++
    optionalField "instructions" NodeInstructions.toValue node.instructions)

def SucceedNode.toValue (node : SucceedNode) : Value :=
  .object [("kind", .string "succeed"), ("name", node.name.toValue),
    ("output", node.output.toValue), ("bindings", listValue InputBinding.toValue node.bindings)]

def FailNode.toValue (node : FailNode) : Value :=
  .object [("kind", .string "fail"), ("name", node.name.toValue),
    ("reason", node.reason.asLabel.toValue)]

/-- The fields every group starts with. -/
def Group.headFields (group : Group) (kind : String) : List (String × Value) :=
  [("kind", .string kind), ("name", group.name.toValue), ("state", group.state.toValue)]

def Group.promotedField (group : Group) : String × Value :=
  ("promotedStatePaths", listValue FieldPath.toValue group.promotedStatePaths)

mutual

def GraphNode.toValue : GraphNode → Value
  | .step node => node.toValue
  | .verifier node => node.toValue
  | .seq group children =>
    .object (group.headFields "seq" ++
      [("children", .array (nodeValues children)), group.promotedField])
  | .choice group branches otherwise =>
    .object (group.headFields "choice" ++
      [("branches", .array (branchValues branches)), ("otherwise", otherwiseValue otherwise),
        group.promotedField])
  | .par group branches join =>
    .object (group.headFields "par" ++
      [("branches", .array (nodeValues branches)), group.promotedField, ("join", join.toValue)])
  | .loop group body untilGuard maxIterations maxIterationsInput =>
    .object (group.headFields "loop" ++ [("body", body.toValue)] ++
      optionalField "until" Guard.toValue untilGuard ++
      [("maxIterations", maxIterations.toValue)] ++
      optionalField "maxIterationsInput" FieldPath.toValue maxIterationsInput ++
      [group.promotedField])
  | .map group body overItems maxItems =>
    .object (group.headFields "map" ++
      [("body", body.toValue), ("over", overItems.toValue), ("maxItems", maxItems.toValue),
        group.promotedField])
  | .succeed node => node.toValue
  | .fail node => node.toValue

def nodeValues : List GraphNode → List Value
  | [] => []
  | node :: nodes => node.toValue :: nodeValues nodes

def branchValues : List (Guard × GraphNode) → List Value
  | [] => []
  | (when, node) :: branches =>
    .object [("when", when.toValue), ("node", node.toValue)] :: branchValues branches

def otherwiseValue : Option GraphNode → Value
  | none => .null
  | some node => node.toValue

end

theorem Group.headFields_floatFree (group : Group) (kind : String) :
    fieldsFloatFree (group.headFields kind) = true := by
  simp [headFields, fieldsFloatFree, Value.floatFree]

theorem Group.promotedField_floatFree (group : Group) : group.promotedField.2.floatFree = true :=
  listValue_floatFree fun _ _ => FieldPath.toValue_floatFree _

theorem bindings_floatFree (bindings : List InputBinding) :
    (listValue InputBinding.toValue bindings).floatFree = true :=
  listValue_floatFree fun _ _ => InputBinding.toValue_floatFree _

theorem writes_floatFree (bindings : List WriteBinding) :
    (listValue WriteBinding.toValue bindings).floatFree = true :=
  listValue_floatFree fun _ _ => WriteBinding.toValue_floatFree _

theorem StepNode.toValue_floatFree (node : StepNode) : node.toValue.floatFree = true := by
  have hinstructions : fieldsFloatFree
      (optionalField "instructions" NodeInstructions.toValue node.instructions) = true :=
    optionalField_floatFree fun _ _ => rfl
  have htimeout : fieldsFloatFree
      (optionalField "timeoutMs" PositiveInteger.toValue node.timeoutMs) = true :=
    optionalField_floatFree fun _ _ => rfl
  simp [toValue, Value.floatFree, fieldsFloatFree_append, fieldsFloatFree, hinstructions, htimeout,
    bindings_floatFree, writes_floatFree]

theorem VerifierNode.toValue_floatFree (node : VerifierNode) : node.toValue.floatFree = true := by
  have hinstructions : fieldsFloatFree
      (optionalField "instructions" NodeInstructions.toValue node.instructions) = true :=
    optionalField_floatFree fun _ _ => rfl
  have htimeout : fieldsFloatFree
      (optionalField "timeoutMs" PositiveInteger.toValue node.timeoutMs) = true :=
    optionalField_floatFree fun _ _ => rfl
  have hsignals : fieldsFloatFree
      (node.signals.map fun entry => (entry.1.asStr, entry.2.toValue)) = true := by
    refine fieldsFloatFree_of fun field hfield => ?_
    obtain ⟨entry, -, rfl⟩ := List.mem_map.mp hfield
    exact NonEmptyEnumSet.toValue_floatFree _
  simp [toValue, Value.floatFree, fieldsFloatFree_append, fieldsFloatFree, hinstructions, htimeout,
    hsignals, bindings_floatFree, writes_floatFree]

mutual

/-- **Encoded nodes hold no float.** -/
theorem GraphNode.toValue_floatFree : ∀ node : GraphNode, node.toValue.floatFree = true
  | .step node => node.toValue_floatFree
  | .verifier node => node.toValue_floatFree
  | .seq group children => by
    simp [GraphNode.toValue, Value.floatFree, fieldsFloatFree_append, fieldsFloatFree,
      group.headFields_floatFree, group.promotedField_floatFree, nodeValues_floatFree children]
  | .choice group branches otherwise => by
    simp [GraphNode.toValue, Value.floatFree, fieldsFloatFree_append, fieldsFloatFree,
      group.headFields_floatFree, group.promotedField_floatFree, branchValues_floatFree branches,
      otherwiseValue_floatFree otherwise]
  | .par group branches join => by
    simp [GraphNode.toValue, Value.floatFree, fieldsFloatFree_append, fieldsFloatFree,
      group.headFields_floatFree, group.promotedField_floatFree, nodeValues_floatFree branches]
  | .loop group body untilGuard maxIterations maxIterationsInput => by
    have huntil : fieldsFloatFree (optionalField "until" Guard.toValue untilGuard) = true :=
      optionalField_floatFree fun _ _ => Guard.toValue_floatFree _
    have hinput : fieldsFloatFree
        (optionalField "maxIterationsInput" FieldPath.toValue maxIterationsInput) = true :=
      optionalField_floatFree fun _ _ => FieldPath.toValue_floatFree _
    simp [GraphNode.toValue, Value.floatFree, fieldsFloatFree_append, fieldsFloatFree, huntil,
      hinput, group.headFields_floatFree, group.promotedField_floatFree,
      GraphNode.toValue_floatFree body]
  | .map group body overItems maxItems => by
    simp [GraphNode.toValue, Value.floatFree, fieldsFloatFree_append, fieldsFloatFree,
      group.headFields_floatFree, group.promotedField_floatFree,
      GraphNode.toValue_floatFree body]
  | .succeed node => by
    simp [GraphNode.toValue, SucceedNode.toValue, Value.floatFree, fieldsFloatFree,
      bindings_floatFree]
  | .fail node => by
    simp [GraphNode.toValue, FailNode.toValue, Value.floatFree, fieldsFloatFree]

theorem nodeValues_floatFree : ∀ nodes : List GraphNode, itemsFloatFree (nodeValues nodes) = true
  | [] => rfl
  | node :: nodes => by
    simp [nodeValues, itemsFloatFree, node.toValue_floatFree, nodeValues_floatFree nodes]

theorem branchValues_floatFree : ∀ branches : List (Guard × GraphNode),
    itemsFloatFree (branchValues branches) = true
  | [] => rfl
  | (when, node) :: branches => by
    simp [branchValues, itemsFloatFree, Value.floatFree, fieldsFloatFree, node.toValue_floatFree,
      branchValues_floatFree branches]

theorem otherwiseValue_floatFree : ∀ otherwise : Option GraphNode,
    (otherwiseValue otherwise).floatFree = true
  | none => rfl
  | some node => node.toValue_floatFree

end

end Zeroshot
