import Zeroshot.Verifier.Guards

set_option autoImplicit false

/-!
# Bindings and promotions

The data half of the verifier: what a binding reads exists and is defined on every path, what it
writes fits its target, targets do not overlap, required fields are bound, and what a group
promotes is defined when the group completes.
-/

namespace Zeroshot

open Reporting

/-- `NodeValidationContext`. -/
structure NodeValidationContext where
  incoming : Flow
  state : PayloadType
  item : Option PayloadType
  mapIndexTargets : Option Definitions

/-- The element type a map writes at the path, inside its body. -/
def NodeValidationContext.indexTarget (context : NodeValidationContext) (path : FieldPath) :
    Option PayloadType :=
  context.mapIndexTargets.bind fun targets => OrdMap.get? targets path

/-! ## Data selectors -/

/-- The type of a state path, and whether it is defined. -/
def stateSelection (context : NodeValidationContext) (selected : FieldPath) :
    Option PayloadType × Bool :=
  let known := OrdMap.get? context.incoming.defined selected
  match context.indexTarget selected with
  | some expected =>
    let indexed := known.filter fun actual => actual.compatibleTypes expected
    (some (indexed.getD expected), indexed.isSome)
  | none =>
    ((context.state.pathType selected).map fun type => known.getD type,
      context.state.isRequiredPath selected || known.isSome)

/-- The type of an item path, and whether it is defined. -/
def itemSelection (payload : PayloadType) (selected : FieldPath) : Option PayloadType × Bool :=
  (payload.pathType selected, payload.isRequiredPath selected)

/-- What `validate_data_selector` reports about a selection. -/
def reportSelection (selection : Option PayloadType × Bool) (path : DiagnosticPath) :
    Analysis Unit :=
  if selection.1.isNone then
    emitDiagnostic .schemaSafety "selector path does not exist in its payload type" path []
  else
    emitIf (!selection.2) .undefinedRead
      "selector path is not definitely defined on every reaching path" path []

/-- `validate_data_selector`: the type of the selected value. A path no type declares is still
read at the type the flow has defined for it. -/
def validateDataSelector (selector : DataSelector) (context : NodeValidationContext)
    (path : DiagnosticPath) : Analysis (Option PayloadType) :=
  match selector with
  | .state selected => do
    let selection := stateSelection context selected
    reportSelection selection path
    pure (selection.1.or (OrdMap.get? context.incoming.defined selected))
  | .item selected =>
    match context.item with
    | none => do
      emitDiagnostic .invalidGraphShape "item selector is legal only inside a map body" path []
      pure none
    | some payload => do
      let selection := itemSelection payload selected
      reportSelection selection path
      pure selection.1

/-! ## Input bindings -/

/-- `validate_target_overlap`. -/
def validateTargetOverlap (target : FieldPath) (previous : List FieldPath) (path : DiagnosticPath)
    (message : String) (relatedNodes : List NodeName) : Analysis Unit :=
  emitIf (previous.any fun other => pathsOverlap other target) .writeConflict message path
    relatedNodes

/-- `validate_input_binding`. -/
def validateInputBinding (binding : InputBinding) (target : PayloadType)
    (context : NodeValidationContext) (path : DiagnosticPath) : Analysis Unit := do
  let targetType := target.pathType binding.target
  emitIf targetType.isNone .schemaSafety "binding target does not exist in declared payload"
    (withField path "target") []
  let source ← validateDataSelector binding.value context (withField path "value")
  match source, targetType with
  | some source, some target =>
    emitIf (!source.isSubtypeOf target) .schemaSafety
      "binding source is not a subtype of its target" path []
  | _, _ => pure ()

/-- The binding loop of `validate_input_bindings`. -/
def validateBindingList (target : PayloadType) (context : NodeValidationContext)
    (nodePath : DiagnosticPath) (field : String) :
    Nat → List FieldPath → List InputBinding → Analysis Unit
  | _, _, [] => pure ()
  | index, targets, binding :: bindings => do
    let path := indexedFieldPath nodePath field index
    validateInputBinding binding target context path
    validateTargetOverlap binding.target targets (withField path "target")
      "bindings have overlapping targets" []
    validateBindingList target context nodePath field (index + 1) (targets ++ [binding.target])
      bindings

/-- The loop of `validate_required_binding_targets`. -/
def validateRequiredTargets (targets : List FieldPath) (nodePath : DiagnosticPath)
    (field : String) : List FieldPath → Analysis Unit
  | [] => pure ()
  | required :: rest => do
    emitIf (!targets.any fun target => pathIsPrefix target required) .undefinedRead
      ("required payload target " ++ displayFieldPath required ++ " is not defined by a binding")
      (withField nodePath field) []
    validateRequiredTargets targets nodePath field rest

/-- `validate_input_bindings`. -/
def validateInputBindings (bindings : List InputBinding) (target : PayloadType)
    (context : NodeValidationContext) (nodePath : DiagnosticPath) (field targetField : String) :
    Analysis Unit := do
  emitIf (!(target matches .null | .record _)) .schemaSafety
    "v1 field bindings cannot construct a whole non-record payload; use null or record"
    (withField nodePath targetField) []
  validateBindingList target context nodePath field 0 [] bindings
  validateRequiredTargets (bindings.map InputBinding.target) nodePath field
    target.requiredLeafPaths

/-! ## Write bindings -/

namespace Analyzer

/-- `selector_verifier`. -/
def selectorVerifier (analyzer : Analyzer) (name : NodeName) : Option VerifierNode :=
  match (OrdMap.get? analyzer.nodes name).map NodeInfo.node with
  | some (.verifier verifier) => some verifier
  | _ => none

/-- `output_selector`. -/
def outputSelector (analyzer : Analyzer) (selector : NodeOutputSelector) (current : NodeName)
    (currentOutput : PayloadType) : Option SelectedOutput :=
  match selector.channel with
  | .out =>
    if selector.node == current then selectedOutputPath currentOutput selector.path
    else
      ((OrdMap.get? analyzer.nodes selector.node).bind fun info =>
        info.node.executableOutput).bind fun payload => selectedOutputPath payload selector.path
  | .signal =>
    (analyzer.selectorVerifier selector.node).bind fun verifier =>
      (signalPathType verifier selector.path).map fun type => ⟨type, true⟩
  | .diagnostic =>
    (analyzer.selectorVerifier selector.node).bind fun verifier =>
      selectedOutputPath verifier.diagnostic selector.path

end Analyzer

/-- `validate_output_availability`. -/
def validateOutputAvailability (selector : NodeOutputSelector) (current : NodeName)
    (incoming : Flow) (path : DiagnosticPath) : Analysis Unit := do
  emitIf (selector.node != current && (!OrdSet.contains incoming.available selector.node ||
      OrdSet.contains incoming.unavailable selector.node)) .undefinedRead
    ("node output " ++ selector.node.asStr ++ " does not dominate this read")
    (fieldPath path ["value"]) [selector.node, current]
  emitIf (OrdSet.contains incoming.failed selector.node) .undefinedRead
    ("node output " ++ selector.node.asStr ++ " is unavailable on its error path")
    (fieldPath path ["value"]) [selector.node, current]

/-- `validate_output_selector`. -/
def validateOutputSelector (selector : NodeOutputSelector) (current : NodeName) (incoming : Flow)
    (currentOutput : PayloadType) (path : DiagnosticPath) : Analysis (Option SelectedOutput) := do
  validateOutputAvailability selector current incoming path
  let analyzer ← read
  let selected := analyzer.outputSelector selector current currentOutput
  emitIf selected.isNone .schemaSafety "node output selector channel or path is invalid"
    (withField path "value") [selector.node]
  pure selected

/-- `validate_write_binding`. -/
def validateWriteBinding (binding : WriteBinding) (name : NodeName) (output : PayloadType)
    (context : NodeValidationContext) (path : DiagnosticPath) : Analysis (Option WriteFact) := do
  let declared := context.state.pathType binding.target
  emitIf declared.isNone .schemaSafety "write target does not exist in node state"
    (withField path "target") [name]
  let target := (context.indexTarget binding.target).or declared
  let producer ← validateOutputSelector binding.value name context.incoming output path
  match producer, target with
  | some producer, some target =>
    emitIf (!producer.valueType.isSubtypeOf target) .schemaSafety
      "write value is not a subtype of its state target" path [binding.value.node, name]
    pure (some ⟨producer.valueType,
      guaranteedWritePaths binding.target producer.valueType producer.definitelyPresent⟩)
  | _, _ => pure none

/-- `validate_write_bindings`, with the writes and the targets of the bindings before `index`. -/
def validateWriteBindings (name : NodeName) (output : PayloadType)
    (context : NodeValidationContext) (nodePath : DiagnosticPath) :
    Nat → Writes → List FieldPath → List WriteBinding → Analysis Writes
  | _, writes, _, [] => pure writes
  | index, writes, targets, binding :: bindings => do
    let path := indexedFieldPath nodePath "writeBindings" index
    let producer ← validateWriteBinding binding name output context path
    validateTargetOverlap binding.target targets (fieldPath path ["target"])
      "executable has overlapping write targets" [name]
    validateWriteBindings name output context nodePath (index + 1)
      (match producer with
        | some write => OrdMap.insert binding.target write writes
        | none => writes)
      (targets ++ [binding.target]) bindings

/-- The effects of an executable with the given writes. -/
def executableEffects (name : NodeName) (incoming : Flow) (writes : Writes) : Effects :=
  { definiteNodes := [name]
    possibleWrites := writes
    possibleWriteTypes := writes.map fun entry => (entry.1, [entry.2.valueType])
    outcomeWrites := if writes.isEmpty then [] else [(name, writes)]
    outcomeOrder := if writes.isEmpty then [] else [name]
    exitFailed := OrdSet.insert name incoming.failed
    fallsThrough := true
    completion := .always }

/-- `validate_executable`. -/
def validateExecutable (name : NodeName) (input output : PayloadType)
    (inputBindings : List InputBinding) (writeBindings : List WriteBinding)
    (context : NodeValidationContext) (path : DiagnosticPath) : Analysis Effects := do
  validateInputBindings inputBindings input context path "inputBindings" "input"
  let writes ← validateWriteBindings name output context path 0 [] [] writeBindings
  pure (executableEffects name context.incoming writes)

/-! ## Promotions -/

/-- `promotion_undefined_message`. -/
def promotionUndefinedMessage : PromotionRule → String
  | .everyAlternative => "promoted path is not defined by every completing alternative"
  | .map => "map promoted path has no indexed body write"
  | .definite => "promoted path is not definitely defined on completion"

/-- Some of the writes is sure to define the path. -/
def Writes.guarantee (writes : Writes) (path : FieldPath) : Bool :=
  (OrdMap.values writes).any fun write => OrdMap.contains write.guaranteedPaths path

/-- `promotion_is_defined`. -/
def promotionIsDefined (group : Group) (effects : Effects) (rule : PromotionRule)
    (overrides : Option Definitions) (promoted : FieldPath) : Bool :=
  let written := effects.definiteWrites.guarantee promoted
  let onOutcome := (OrdMap.values effects.outcomeWrites).any fun writes =>
    Writes.guarantee writes promoted
  match rule with
  | .map => written || onOutcome
  | .definite | .everyAlternative =>
    let indexed := overrides.any fun targets => OrdMap.contains targets promoted
    let required := group.state.isRequiredPath promoted
    (!indexed && required) || written || (!required && onOutcome)

/-- `validate_promotion_target`. -/
def validatePromotionTarget (enclosing : PayloadType) (effects : Effects)
    (overrides : Option Definitions) (promoted : FieldPath) (path : DiagnosticPath) :
    Analysis Unit :=
  match (overrides.bind fun targets => OrdMap.get? targets promoted).or
      (enclosing.pathType promoted) with
  | none =>
    emitDiagnostic .schemaSafety "promoted state path does not exist in enclosing state" path []
  | some target =>
    emitIf (((OrdMap.get? effects.possibleWriteTypes promoted).getD []).any fun source =>
        !source.isSubtypeOf target) .schemaSafety
      "promoted value is not a subtype of its enclosing state target" path []

/-- `validate_promotion`. -/
def validatePromotion (group : Group) (enclosing : PayloadType) (effects : Effects)
    (rule : PromotionRule) (overrides : Option Definitions) (promoted : FieldPath)
    (path : DiagnosticPath) : Analysis Unit :=
  match group.state.pathType promoted with
  | none =>
    emitDiagnostic .schemaSafety "promoted state path does not exist in group state" path []
  | some type => do
    validatePromotionTarget enclosing effects overrides promoted path
    if rule == .map && !(type matches .array _) then pure ()
    else
      emitIf (!promotionIsDefined group effects rule overrides promoted) .undefinedRead
        (promotionUndefinedMessage rule) path []

/-- The loop of `restrict_promotions`. -/
def validatePromotions (group : Group) (enclosing : PayloadType) (effects : Effects)
    (rule : PromotionRule) (overrides : Option Definitions) (nodePath : DiagnosticPath) :
    Nat → List FieldPath → Analysis Unit
  | _, [] => pure ()
  | index, promoted :: rest => do
    validatePromotion group enclosing effects rule overrides promoted
      (indexedFieldPath nodePath "promotedStatePaths" index)
    validatePromotions group enclosing effects rule overrides nodePath (index + 1) rest

/-- `restrict_promotions`. -/
def restrictPromotions (group : Group) (context : NodeValidationContext) (effects : Effects)
    (rule : PromotionRule) (path : DiagnosticPath) : Analysis Effects := do
  validatePromotions group context.state effects rule context.mapIndexTargets path 0
    group.promotedStatePaths
  pure (effects.retainPromotedWrites group.promotedStatePaths)

end Zeroshot
