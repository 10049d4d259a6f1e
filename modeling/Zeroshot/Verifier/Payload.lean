import Zeroshot.Protocol.Graph

set_option autoImplicit false

/-!
# Paths into payload types

What the verifier asks of a payload type: the type at a path, whether every value of the type has
the path, the paths a value of the type is sure to have, and subtyping refined by the paths the
flow has defined.
-/

namespace Zeroshot

/-- `FieldPath::new`. -/
def FieldPath.new (segments : List FieldName) : Option FieldPath :=
  if h : segments ≠ [] ∧ segments.length ≤ maxPathSegments then some ⟨segments, h.1, h.2⟩
  else none

/-- `path_is_prefix`. -/
def pathIsPrefix (parent path : FieldPath) : Bool := parent.segments.isPrefixOf path.segments

/-- `paths_overlap`. -/
def pathsOverlap (left right : FieldPath) : Bool :=
  pathIsPrefix left right || pathIsPrefix right left

/-- `display_field_path`. -/
def displayFieldPath (path : FieldPath) : String :=
  ".".intercalate (path.segments.map Identifier.asStr)

/-- Definitions at paths, with the type each is known to have. -/
abbrev Definitions := OrdMap FieldPath PayloadType

namespace PayloadType

def pathTypeFrom : PayloadType → List FieldName → Option PayloadType
  | current, [] => some current
  | .record fields, segment :: segments =>
    match OrdMap.get? fields segment with
    | none => none
    | some field => pathTypeFrom field.2 segments
  | _, _ :: _ => none

/-- `path_type`. -/
def pathType (payload : PayloadType) (path : FieldPath) : Option PayloadType :=
  payload.pathTypeFrom path.segments

def isRequiredFrom : PayloadType → List FieldName → Bool
  | _, [] => true
  | .record fields, segment :: segments =>
    match OrdMap.get? fields segment with
    | none => false
    | some field => field.1 && isRequiredFrom field.2 segments
  | _, _ :: _ => false

/-- `is_required_path`. -/
def isRequiredPath (payload : PayloadType) (path : FieldPath) : Bool :=
  payload.isRequiredFrom path.segments

/-- Push the path of a required leaf. -/
def pushLeaf (parents : List FieldName) (paths : List FieldPath) : List FieldPath :=
  match FieldPath.new parents with
  | some path => paths ++ [path]
  | none => paths

mutual

/-- The inner `collect` of `required_leaf_paths`: the leaves, and whether there was one. -/
def collectLeaves (payload : PayloadType) (parents : List FieldName) (required : Bool)
    (paths : List FieldPath) : List FieldPath × Bool :=
  if !required then (paths, false)
  else
    match payload with
    | .record fields =>
      let (paths, hasRequired) := collectFieldLeaves fields parents paths
      if !hasRequired && !parents.isEmpty then (pushLeaf parents paths, true)
      else (paths, hasRequired)
    | _ => if parents.isEmpty then (paths, false) else (pushLeaf parents paths, true)

def collectFieldLeaves (fields : List (FieldName × Bool × PayloadType)) (parents : List FieldName)
    (paths : List FieldPath) : List FieldPath × Bool :=
  match fields with
  | [] => (paths, false)
  | (name, required, type) :: fields =>
    let (paths, first) := collectLeaves type (parents ++ [name]) required paths
    let (paths, rest) := collectFieldLeaves fields parents paths
    (paths, first || rest)

end

/-- `required_leaf_paths`. -/
def requiredLeafPaths (payload : PayloadType) : List FieldPath :=
  (collectLeaves payload [] true []).1

mutual

/-- `collect_required_descendant_paths`. -/
def collectRequiredDescendantPaths (payload : PayloadType) (parents : List FieldName)
    (paths : Definitions) : Definitions :=
  match payload with
  | .record fields => collectRequiredFieldPaths fields parents paths
  | _ => paths

def collectRequiredFieldPaths (fields : List (FieldName × Bool × PayloadType))
    (parents : List FieldName) (paths : Definitions) : Definitions :=
  match fields with
  | [] => paths
  | (name, required, type) :: fields =>
    let below := parents ++ [name]
    let paths :=
      if required then
        match FieldPath.new below with
        | some path =>
          collectRequiredDescendantPaths type below (OrdMap.insert path type paths)
        | none => paths
      else paths
    collectRequiredFieldPaths fields parents paths

end

/-- `required_paths_with_types`. -/
def requiredPathsWithTypes (payload : PayloadType) : Definitions :=
  collectRequiredDescendantPaths payload [] []

mutual

/-- The inner `check` of `is_subtype_with_definitions`, by recursion on the target. -/
def checkWithDefinitions (definitions : Definitions) (source : PayloadType)
    (target : PayloadType) (parents : List FieldName) : Bool :=
  match target with
  | .record target' =>
    match source with
    | .record source' => checkFieldsWithDefinitions definitions source' target' parents
    | _ => source.isSubtypeOf target
  | target => source.isSubtypeOf target

def checkFieldsWithDefinitions (definitions : Definitions) (source : OrdMap FieldName RecordField)
    (target : List (FieldName × Bool × PayloadType)) (parents : List FieldName) : Bool :=
  match target with
  | [] => true
  | (name, required, type) :: target =>
    (match OrdMap.get? source name with
      | none => !required
      | some field =>
        let below := parents ++ [name]
        let refined := (FieldPath.new below).bind (OrdMap.get? definitions)
        let present := field.1 || refined.isSome
        (!required || present) &&
          checkWithDefinitions definitions (refined.getD field.2) type below) &&
      checkFieldsWithDefinitions definitions source target parents

end

/-- `is_subtype_with_definitions`. -/
def isSubtypeWithDefinitions (source target : PayloadType) (definitions : Definitions) : Bool :=
  checkWithDefinitions definitions source target []

/-- `common_supertype`. -/
def commonSupertype (left right : PayloadType) : Option PayloadType :=
  if left.isSubtypeOf right then some right
  else if right.isSubtypeOf left then some left
  else none

/-- `compatible_types`. -/
def compatibleTypes (left right : PayloadType) : Bool :=
  left.isSubtypeOf right || right.isSubtypeOf left

end PayloadType

/-- `guaranteed_write_paths`. -/
def guaranteedWritePaths (target : FieldPath) (type : PayloadType) (definitelyPresent : Bool) :
    Definitions :=
  if definitelyPresent then
    type.collectRequiredDescendantPaths target.segments [(target, type)]
  else []

/-- `SelectedOutput`. -/
structure SelectedOutput where
  valueType : PayloadType
  definitelyPresent : Bool

/-- `selected_output_path`. -/
def selectedOutputPath (payload : PayloadType) (path : FieldPath) : Option SelectedOutput :=
  (payload.pathType path).map fun type => ⟨type, payload.isRequiredPath path⟩

/-- `executable_output`. -/
def GraphNode.executableOutput : GraphNode → Option PayloadType
  | .step node => some node.output
  | .verifier node => some node.output
  | _ => none

end Zeroshot
