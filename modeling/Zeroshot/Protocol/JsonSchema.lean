import Zeroshot.Protocol.Payload

set_option autoImplicit false

/-!
# The meaning of JSON-Schema documents

A schema is itself a JSON value. `schemaAccepts` is the standard reading of the keywords the
providers are given: `type`, `enum`, `properties`, `required`, `additionalProperties`, `items` and
`anyOf`. Each keyword is an assertion of its own; a keyword about objects or arrays says nothing
about other values, and a keyword without meaning here (an annotation such as `description`) says
nothing at all. An `integer` is any number without a fractional part.
-/

namespace Zeroshot

namespace JsonSchema

/-- The assertion of `type`. -/
def hasType (name : String) (value : Value) : Bool :=
  match value with
  | .null => name == "null"
  | .bool _ => name == "boolean"
  | .number _ => name == "number" || (name == "integer" && value.isJsonInteger)
  | .string _ => name == "string"
  | .array _ => name == "array"
  | .object _ => name == "object"

/-- The assertion of `required`. -/
def hasRequired (names : List Value) (value : Value) : Bool :=
  match value with
  | .object fields => names.all fun name =>
    match name with
    | .string name => OrdMap.contains fields name
    | _ => false
  | _ => true

/-- Whether `properties` names the field. -/
def isDeclared (siblings : OrdMap String Value) (name : String) : Bool :=
  match OrdMap.get? siblings "properties" with
  | some (.object properties) => OrdMap.contains properties name
  | _ => false

mutual

/-- Whether a schema accepts a value. -/
def schemaAccepts (schema : Value) (value : Value) : Bool :=
  match schema with
  | .bool accepted => accepted
  | .object keywords => keywordsAccept keywords keywords value
  | _ => false
  termination_by structural schema

/-- Every keyword accepts the value; `siblings` are all keywords of the schema. -/
def keywordsAccept (siblings : OrdMap String Value) (keywords : List (String × Value))
    (value : Value) : Bool :=
  match keywords with
  | [] => true
  | entry :: keywords =>
    keywordAccepts siblings entry value && keywordsAccept siblings keywords value
  termination_by structural keywords

/-- The assertion of one keyword with its argument. -/
def keywordAccepts (siblings : OrdMap String Value) (entry : String × Value) (value : Value) :
    Bool :=
  match entry with
  | (keyword, argument) =>
    if keyword = "type" then
      match argument with
      | .string name => hasType name value
      | _ => false
    else if keyword = "enum" then
      match argument with
      | .array values => values.any fun allowed => decide (allowed = value)
      | _ => false
    else if keyword = "properties" then
      match argument with
      | .object properties => value.asObject.all fun fields => propertiesAccept properties fields
      | _ => false
    else if keyword = "required" then
      match argument with
      | .array names => hasRequired names value
      | _ => false
    else if keyword = "additionalProperties" then
      value.asObject.all fun fields => fields.all fun field =>
        isDeclared siblings field.1 || schemaAccepts argument field.2
    else if keyword = "items" then
      value.asArray.all fun items => items.all fun item => schemaAccepts argument item
    else if keyword = "anyOf" then
      match argument with
      | .array schemas => anyAccepts schemas value
      | _ => false
    else true
  termination_by structural entry

/-- The fields named by the properties are accepted by their schemas. -/
def propertiesAccept (properties : List (String × Value)) (fields : OrdMap String Value) : Bool :=
  match properties with
  | [] => true
  | (name, schema) :: properties =>
    (match OrdMap.get? fields name with
      | some value => schemaAccepts schema value
      | none => true) && propertiesAccept properties fields
  termination_by structural properties

/-- One of the schemas accepts the value. -/
def anyAccepts (schemas : List Value) (value : Value) : Bool :=
  match schemas with
  | [] => false
  | schema :: schemas => schemaAccepts schema value || anyAccepts schemas value
  termination_by structural schemas

end

section Keywords

variable (siblings : OrdMap String Value) (value : Value)

@[simp] theorem keywordAccepts_type (name : String) :
    keywordAccepts siblings ("type", (.string name)) value = hasType name value := rfl

@[simp] theorem keywordAccepts_enum (values : List Value) :
    keywordAccepts siblings ("enum", (.array values)) value =
      values.any fun allowed => decide (allowed = value) := rfl

@[simp] theorem keywordAccepts_properties (properties : List (String × Value))
    (fields : OrdMap String Value) :
    keywordAccepts siblings ("properties", (.object properties)) (.object fields) =
      propertiesAccept properties fields := rfl

@[simp] theorem keywordAccepts_required (names : List Value) :
    keywordAccepts siblings ("required", (.array names)) value = hasRequired names value := rfl

@[simp] theorem keywordAccepts_additionalProperties (schema : Value)
    (fields : OrdMap String Value) :
    keywordAccepts siblings ("additionalProperties", schema) (.object fields) =
      fields.all fun field => isDeclared siblings field.1 || schemaAccepts schema field.2 := rfl

@[simp] theorem keywordAccepts_items (schema : Value) (items : List Value) :
    keywordAccepts siblings ("items", schema) (.array items) =
      items.all fun item => schemaAccepts schema item := rfl

@[simp] theorem keywordAccepts_anyOf (schemas : List Value) :
    keywordAccepts siblings ("anyOf", (.array schemas)) value = anyAccepts schemas value := rfl

@[simp] theorem keywordAccepts_description (text : Value) :
    keywordAccepts siblings ("description", text) value = true := rfl

@[simp] theorem keywordsAccept_nil : keywordsAccept siblings [] value = true := by
  rw [keywordsAccept]

@[simp] theorem keywordsAccept_cons (keyword : String) (argument : Value)
    (keywords : List (String × Value)) :
    keywordsAccept siblings ((keyword, argument) :: keywords) value =
      (keywordAccepts siblings (keyword, argument) value &&
        keywordsAccept siblings keywords value) := by
  rw [keywordsAccept]

@[simp] theorem schemaAccepts_object (keywords : List (String × Value)) :
    schemaAccepts (.object keywords) value = keywordsAccept keywords keywords value := by
  rw [schemaAccepts]

@[simp] theorem schemaAccepts_bool (accepted : Bool) :
    schemaAccepts (.bool accepted) value = accepted := by
  rw [schemaAccepts]

theorem anyAccepts_pair (first second : Value) :
    anyAccepts [first, second] value =
      (schemaAccepts first value || schemaAccepts second value) := by
  rw [anyAccepts, anyAccepts, anyAccepts, Bool.or_false]

end Keywords

theorem propertiesAccept_iff {properties : List (String × Value)} {fields : OrdMap String Value} :
    propertiesAccept properties fields = true ↔
      ∀ property ∈ properties, ∀ value, OrdMap.get? fields property.1 = some value →
        schemaAccepts property.2 value = true := by
  induction properties with
  | nil => simp [propertiesAccept]
  | cons property properties ih =>
    obtain ⟨name, schema⟩ := property
    rw [propertiesAccept, Bool.and_eq_true, ih, List.forall_mem_cons]
    cases OrdMap.get? fields name <;> simp

end JsonSchema

end Zeroshot
