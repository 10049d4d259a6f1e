import Zeroshot.Lib.OrdMap
import Zeroshot.Protocol.Identifier
import Mathlib.Data.Rat.Init

set_option autoImplicit false

/-!
# JSON values and payload types

`Value` is a JSON document as the reducer holds it: objects are ordered maps, numbers keep the
difference between integers and finite floats. `PayloadType` is the closed type algebra of the
graph contract with its three operations:

* `isSubtypeOf`, structural width and depth subtyping;
* `validateValue`, total validation with the path and the text of the first failure;
* `materializeMissingFields` and `materializedSubtypeOf`, the deterministic empty values a target
  type adds to an incoming record.
-/

namespace Zeroshot

/-! ## Values -/

/-- A JSON number. A finite double is kept as the rational it denotes. -/
inductive Number
  | int (value : Int)
  | float (value : Rat)
  deriving DecidableEq, Repr

/-- A JSON value. -/
inductive Value
  | null
  | bool (value : Bool)
  | number (value : Number)
  | string (value : String)
  | array (items : List Value)
  | object (fields : List (String × Value))
  deriving Inhabited, Repr

namespace Value

mutual

/-- Structural equality of values. -/
def same : Value → Value → Bool
  | .null, .null => true
  | .bool a, .bool b => a == b
  | .number a, .number b => a == b
  | .string a, .string b => a == b
  | .array as, .array bs => sameItems as bs
  | .object as, .object bs => sameFields as bs
  | _, _ => false

def sameItems : List Value → List Value → Bool
  | [], [] => true
  | a :: as, b :: bs => same a b && sameItems as bs
  | _, _ => false

def sameFields : List (String × Value) → List (String × Value) → Bool
  | [], [] => true
  | (k, a) :: as, (l, b) :: bs => k == l && same a b && sameFields as bs
  | _, _ => false

end

mutual

theorem same_iff : ∀ a b : Value, same a b = true ↔ a = b
  | .null, b => by cases b <;> simp [same]
  | .bool _, b => by cases b <;> simp [same]
  | .number _, b => by cases b <;> simp [same]
  | .string _, b => by cases b <;> simp [same]
  | .array as, b => by cases b <;> simp [same, sameItems_iff as]
  | .object as, b => by cases b <;> simp [same, sameFields_iff as]

theorem sameItems_iff : ∀ as bs : List Value, sameItems as bs = true ↔ as = bs
  | [], bs => by cases bs <;> simp [sameItems]
  | a :: as, bs => by cases bs <;> simp [sameItems, same_iff a, sameItems_iff as]

theorem sameFields_iff : ∀ as bs : List (String × Value), sameFields as bs = true ↔ as = bs
  | [], bs => by cases bs <;> simp [sameFields]
  | (k, a) :: as, bs => by
    cases bs <;> simp [sameFields, same_iff a, sameFields_iff as, Prod.ext_iff]

end

instance : DecidableEq Value := fun a b => decidable_of_iff _ (same_iff a b)

/-- `Value::as_object`. -/
def asObject : Value → Option (OrdMap String Value)
  | .object fields => some fields
  | _ => none

/-- `Value::as_array`. -/
def asArray : Value → Option (List Value)
  | .array items => some items
  | _ => none

/-- `Value::as_str`. -/
def asStr : Value → Option String
  | .string value => some value
  | _ => none

/-- `is_json_integer`. -/
def isJsonInteger : Value → Bool
  | .number (.int _) => true
  | .number (.float value) => value.den == 1
  | _ => false

end Value

/-! ## Payload types -/

/-- The payload algebra. A record field is its name, whether it is required, and its type. -/
inductive PayloadType
  | null
  | boolean
  | integer
  | number
  | string
  | record (fields : List (FieldName × Bool × PayloadType))
  | array (items : PayloadType)
  | enum (values : NonEmptyEnumSet)
  deriving Inhabited, Repr

/-- `RecordField`: whether the field is required, and its type. -/
abbrev RecordField := Bool × PayloadType

namespace PayloadType

mutual

/-- Structural equality of payload types. -/
def same : PayloadType → PayloadType → Bool
  | .null, .null => true
  | .boolean, .boolean => true
  | .integer, .integer => true
  | .number, .number => true
  | .string, .string => true
  | .record as, .record bs => sameFields as bs
  | .array a, .array b => same a b
  | .enum a, .enum b => a == b
  | _, _ => false

def sameFields :
    List (FieldName × Bool × PayloadType) → List (FieldName × Bool × PayloadType) → Bool
  | [], [] => true
  | (n, r, a) :: as, (m, q, b) :: bs => n == m && r == q && same a b && sameFields as bs
  | _, _ => false

end

mutual

theorem same_iff : ∀ a b : PayloadType, same a b = true ↔ a = b
  | .null, b => by cases b <;> simp [same]
  | .boolean, b => by cases b <;> simp [same]
  | .integer, b => by cases b <;> simp [same]
  | .number, b => by cases b <;> simp [same]
  | .string, b => by cases b <;> simp [same]
  | .record as, b => by cases b <;> simp [same, sameFields_iff as]
  | .array a, b => by cases b <;> simp [same, same_iff a]
  | .enum _, b => by cases b <;> simp [same]

theorem sameFields_iff : ∀ as bs : List (FieldName × Bool × PayloadType),
    sameFields as bs = true ↔ as = bs
  | [], bs => by cases bs <;> simp [sameFields]
  | (n, r, a) :: as, bs => by
    cases bs <;> simp [sameFields, same_iff a, sameFields_iff as, Prod.ext_iff, and_assoc]

end

instance : DecidableEq PayloadType := fun a b => decidable_of_iff _ (same_iff a b)

mutual

/-- `is_subtype_of`: width and depth subtyping, with `integer` below `number`. -/
def isSubtypeOf (source target : PayloadType) : Bool :=
  match source, target with
  | .null, .null => true
  | .boolean, .boolean => true
  | .integer, .integer => true
  | .integer, .number => true
  | .number, .number => true
  | .string, .string => true
  | .array source, .array target => isSubtypeOf source target
  | .enum source, .enum target => source.isSubset target
  | .record source, .record target => fieldsCovered source target
  | _, _ => false

/-- Every target field is covered by the source fields. -/
def fieldsCovered (source : OrdMap FieldName RecordField) :
    List (FieldName × Bool × PayloadType) → Bool
  | [] => true
  | (name, required, type) :: target =>
    (match OrdMap.get? source name with
      | some field => (!required || field.1) && isSubtypeOf field.2 type
      | none => !required) && fieldsCovered source target

end

/-! ### Validation -/

end PayloadType

/-- `PayloadValueError`. -/
inductive PayloadValueError
  | typeMismatch (path expected : String)
  | missingRequiredField (path field : String)
  | unknownField (path field : String)
  | unknownEnumLabel (path value : String)
  deriving DecidableEq, Repr

namespace PayloadType

/-- `expect_type`. -/
def expectType (isMatch : Bool) (path expected : String) : Except PayloadValueError Unit :=
  if isMatch then .ok () else .error (.typeMismatch path expected)

/-- `validate_enum`. -/
def validateEnum (values : NonEmptyEnumSet) (value : Value) (path : String) :
    Except PayloadValueError Unit :=
  match value.asStr with
  | none => .error (.typeMismatch path "enum")
  | some label => if values.contains label then .ok () else .error (.unknownEnumLabel path label)

/-- The loop of `validate_array` over the items from `index` on. -/
def validateItems (validate : Value → String → Except PayloadValueError Unit) (path : String) :
    Nat → List Value → Except PayloadValueError Unit
  | _, [] => .ok ()
  | index, value :: values => do
    validate value (path ++ "[" ++ toString index ++ "]")
    validateItems validate path (index + 1) values

/-- `validate_array`. -/
def validateArray (validate : Value → String → Except PayloadValueError Unit) (value : Value)
    (path : String) : Except PayloadValueError Unit :=
  match value.asArray with
  | none => .error (.typeMismatch path "array")
  | some values => validateItems validate path 0 values

/-- The first key of the object that no field declares. -/
def undeclaredKey (fields : List (FieldName × Bool × PayloadType))
    (object : OrdMap String Value) : Option String :=
  (OrdMap.keys object).find? fun key => !fields.any fun field => field.1.asStr == key

mutual

/-- `validate_value_at`. -/
def validateValueAt (type : PayloadType) (value : Value) (path : String) :
    Except PayloadValueError Unit :=
  match type with
  | .null => expectType (value matches .null) path "null"
  | .boolean => expectType (value matches .bool _) path "boolean"
  | .integer => expectType value.isJsonInteger path "integer"
  | .number => expectType (value matches .number _) path "number"
  | .string => expectType (value matches .string _) path "string"
  | .enum values => validateEnum values value path
  | .array items => validateArray (validateValueAt items) value path
  | .record fields =>
    match value.asObject with
    | none => .error (.typeMismatch path "record")
    | some object => do
      validateFields fields object path
      match undeclaredKey fields object with
      | some name => .error (.unknownField path name)
      | none => .ok ()

/-- The field loop of `validate_record`. -/
def validateFields (fields : List (FieldName × Bool × PayloadType))
    (object : OrdMap String Value) (path : String) : Except PayloadValueError Unit :=
  match fields with
  | [] => .ok ()
  | (name, required, type) :: fields => do
    match OrdMap.get? object name.asStr with
    | some value => validateValueAt type value (path ++ "." ++ name.asStr)
    | none => if required then .error (.missingRequiredField path name.asStr) else .ok ()
    validateFields fields object path

end

/-- `validate_value`. -/
def validateValue (type : PayloadType) (value : Value) : Except PayloadValueError Unit :=
  type.validateValueAt value "$"

/-! ### Materialized fields -/

mutual

/-- `implicit_empty_value`. -/
def implicitEmptyValue : PayloadType → Option Value
  | .null => some .null
  | .string => some (.string "")
  | .array _ => some (.array [])
  | .record fields => (implicitEmptyFields fields []).map .object
  | .boolean | .integer | .number | .enum _ => none

def implicitEmptyFields :
    List (FieldName × Bool × PayloadType) → OrdMap String Value → Option (OrdMap String Value)
  | [], object => some object
  | (name, required, type) :: fields, object =>
    if required then
      match implicitEmptyValue type with
      | some value => implicitEmptyFields fields (OrdMap.insert name.asStr value object)
      | none => none
    else implicitEmptyFields fields object

end

mutual

/-- `materialize_missing_fields`. -/
def materializeMissingFields (type : PayloadType) (value : Value) : Value :=
  match type, value with
  | .record fields, .object object => .object (materializeFields fields object)
  | _, value => value

def materializeFields (fields : List (FieldName × Bool × PayloadType))
    (object : OrdMap String Value) : OrdMap String Value :=
  match fields with
  | [] => object
  | (name, required, type) :: fields =>
    materializeFields fields <|
      match OrdMap.get? object name.asStr with
      | some value => OrdMap.insert name.asStr (materializeMissingFields type value) object
      | none =>
        match required, implicitEmptyValue type with
        | true, some value => OrdMap.insert name.asStr value object
        | _, _ => object

end

mutual

/-- `materialized_source_type`. -/
def materializedSourceType (source target : PayloadType) : Option PayloadType :=
  match target with
  | .record target' =>
    match source with
    | .record source' => (materializedRecordFields source' target').map .record
    | _ => if source.isSubtypeOf target then some source else none
  | target => if source.isSubtypeOf target then some source else none

/-- `materialized_record_fields`, one `materialize_record_field` per target field. -/
def materializedRecordFields (materialized : OrdMap FieldName RecordField)
    (target : List (FieldName × Bool × PayloadType)) : Option (OrdMap FieldName RecordField) :=
  match target with
  | [] => some materialized
  | (name, required, type) :: target =>
    match OrdMap.get? materialized name with
    | none =>
      if required then
        match implicitEmptyValue type with
        | none => none
        | some _ =>
          materializedRecordFields (OrdMap.insert name (required, type) materialized) target
      else materializedRecordFields materialized target
    | some source =>
      match materializedSourceType source.2 type with
      | none => none
      | some materializedType =>
        if required && !source.1 then
          match implicitEmptyValue type with
          | none => none
          | some _ => materializedRecordFields (OrdMap.insert name (true, type) materialized) target
        else
          materializedRecordFields (OrdMap.insert name (source.1, materializedType) materialized)
            target

end

/-- `materialized_subtype_of`: the source type once the target's empty values are added. -/
def materializedSubtypeOf (source target : PayloadType) : Option PayloadType :=
  (materializedSourceType source target).filter fun type => type.isSubtypeOf target

end PayloadType

end Zeroshot
