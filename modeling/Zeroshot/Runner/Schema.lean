import Zeroshot.Protocol.JsonSchema
import Zeroshot.Protocol.Materialization

set_option autoImplicit false

/-!
# Strict provider schemas

A provider that only takes strict schemas must see every field required. The schema of an optional
field then also accepts a value that stands for its absence: `null`, or a sentinel text when the
field itself holds `null`. `normalizeOpenaiPayload` removes these stand-ins from a response.

`strict_schema_lossless`: what the strict schema accepts is normalized into a value of the type, and
every value of the type is the normal form of an accepted one, `encodeOpenaiPayload`.
-/

namespace Zeroshot

open JsonSchema

/-! ## Schemas -/

/-- `OPENAI_OPTIONAL_NULL_OMISSION`. -/
def openaiOptionalNullOmission : String := "__zeroshot_omitted_optional_null__"

inductive ProviderSchemaDialect
  | standard
  | openAiStrict
  deriving DecidableEq, Repr

/-- A schema with only a type. -/
def typeSchema (name : String) : Value := .object [("type", .string name)]

/-- `enum_schema`. -/
def enumSchema (values : List String) : Value :=
  .object [("enum", .array (values.map .string)), ("type", .string "string")]

/-- `closed_object_schema`. -/
def closedObjectSchema (properties : OrdMap String Value) (required : List String) : Value :=
  .object [("additionalProperties", .bool false), ("properties", .object properties),
    ("required", .array (required.map .string)), ("type", .string "object")]

/-- The schema of the value that stands for an absent optional field. -/
def omissionSchema (payload : PayloadType) : Value :=
  match payload with
  | .null => .object [
      ("description", .string "Use this sentinel when the optional field is omitted."),
      ("enum", .array [.string openaiOptionalNullOmission]), ("type", .string "string")]
  | _ => typeSchema "null"

/-- `openai_optional_schema`. -/
def openaiOptionalSchema (payload : PayloadType) (schema : Value) : Value :=
  .object [("anyOf", .array [schema, omissionSchema payload])]

mutual

/-- `payload_schema`. -/
def payloadSchema (payload : PayloadType) (dialect : ProviderSchemaDialect) : Value :=
  match payload with
  | .null => typeSchema "null"
  | .boolean => typeSchema "boolean"
  | .integer => typeSchema "integer"
  | .number => typeSchema "number"
  | .string => typeSchema "string"
  | .record fields =>
    closedObjectSchema (fieldSchemas fields dialect)
      ((fields.filter fun field => field.2.1 || decide (dialect = .openAiStrict)).map
        fun field => field.1.asStr)
  | .array items => .object [("items", payloadSchema items dialect), ("type", .string "array")]
  | .enum values => enumSchema (values.values.map Identifier.asStr)

/-- The properties of a record's schema. -/
def fieldSchemas (fields : List (FieldName × Bool × PayloadType))
    (dialect : ProviderSchemaDialect) : OrdMap String Value :=
  match fields with
  | [] => []
  | (name, required, type) :: fields =>
    (name.asStr,
      if !required && decide (dialect = .openAiStrict) then
        openaiOptionalSchema type (payloadSchema type dialect)
      else payloadSchema type dialect) :: fieldSchemas fields dialect

end

/-! ## Normal forms -/

/-- `openai_value_is_omitted`. -/
def openaiValueIsOmitted (payload : PayloadType) (value : Option Value) : Bool :=
  match payload with
  | .null => decide (value.bind Value.asStr = some openaiOptionalNullOmission)
  | _ => value.any fun value => value matches .null

mutual

/-- `normalize_openai_payload`. -/
def normalizeOpenaiPayload (payload : PayloadType) (value : Value) : Value :=
  match payload with
  | .record fields =>
    match value with
    | .object values => .object (normalizeFields fields values)
    | value => value
  | .array items =>
    match value with
    | .array values => .array (values.map (normalizeOpenaiPayload items))
    | value => value
  | _ => value

/-- The field loop of `normalize_openai_payload`. -/
def normalizeFields (fields : List (FieldName × Bool × PayloadType))
    (values : OrdMap String Value) : OrdMap String Value :=
  match fields with
  | [] => values
  | (name, required, type) :: fields =>
    if !required && openaiValueIsOmitted type (OrdMap.get? values name.asStr) then
      normalizeFields fields (OrdMap.remove values name.asStr)
    else
      match OrdMap.get? values name.asStr with
      | some value =>
        normalizeFields fields (OrdMap.insert name.asStr (normalizeOpenaiPayload type value) values)
      | none => normalizeFields fields values

end

/-- The value that stands for an absent optional field. -/
def openaiOmission (payload : PayloadType) : Value :=
  match payload with
  | .null => .string openaiOptionalNullOmission
  | _ => .null

mutual

/-- The value of a strict response for a value of the type: absent fields are written as their
stand-ins, at every depth. -/
def encodeOpenaiPayload (payload : PayloadType) (value : Value) : Value :=
  match payload with
  | .record fields =>
    match value with
    | .object values => .object (encodeFields fields values)
    | value => value
  | .array items =>
    match value with
    | .array values => .array (values.map (encodeOpenaiPayload items))
    | value => value
  | _ => value

def encodeFields (fields : List (FieldName × Bool × PayloadType))
    (values : OrdMap String Value) : OrdMap String Value :=
  match fields with
  | [] => values
  | (name, _, type) :: fields =>
    match OrdMap.get? values name.asStr with
    | some value =>
      encodeFields fields (OrdMap.insert name.asStr (encodeOpenaiPayload type value) values)
    | none => encodeFields fields (OrdMap.insert name.asStr (openaiOmission type) values)

end

/-! ## What the schemas accept -/

theorem schemaAccepts_type {name : String} {value : Value} :
    schemaAccepts (typeSchema name) value = hasType name value := by
  simp [typeSchema]

theorem schemaAccepts_enum {labels : List String} {value : Value} :
    schemaAccepts (enumSchema labels) value = true ↔ ∃ label ∈ labels, value = .string label := by
  cases value <;> simp [enumSchema, hasType]

theorem schemaAccepts_array {items value : Value} :
    schemaAccepts (.object [("items", items), ("type", .string "array")]) value = true ↔
      ∃ values, value = .array values ∧ ∀ item ∈ values, schemaAccepts items item = true := by
  cases value <;> simp [hasType]

theorem schemaAccepts_closedObject {properties : OrdMap String Value} {required : List String}
    {value : Value} : schemaAccepts (closedObjectSchema properties required) value = true ↔
      ∃ fields, value = .object fields ∧
        (∀ field ∈ fields, OrdMap.contains properties field.1 = true) ∧
        (∀ property ∈ properties, ∀ value, OrdMap.get? fields property.1 = some value →
          schemaAccepts property.2 value = true) ∧
        ∀ name ∈ required, OrdMap.contains fields name = true := by
  rw [closedObjectSchema]
  cases value with
  | object fields =>
    have hproperties : OrdMap.get? [("additionalProperties", Value.bool false),
        ("properties", .object properties), ("required", .array (required.map .string)),
        ("type", .string "object")] "properties" = some (.object properties) := by
      rw [OrdMap.get?_cons_ne (by decide), OrdMap.get?_cons_self]
    have hdeclared : ∀ name, isDeclared [("additionalProperties", Value.bool false),
        ("properties", .object properties), ("required", .array (required.map .string)),
        ("type", .string "object")] name = OrdMap.contains properties name := by
      intro name
      rw [isDeclared, hproperties]
    simp only [schemaAccepts_object, keywordsAccept_cons, keywordsAccept_nil,
      keywordAccepts_additionalProperties, keywordAccepts_properties, keywordAccepts_required,
      keywordAccepts_type, hdeclared, schemaAccepts_bool, Bool.or_false, hasType, hasRequired,
      beq_self_eq_true, Bool.and_true, Bool.and_eq_true, List.all_eq_true, List.all_map,
      Function.comp_apply, propertiesAccept_iff, Value.object.injEq, exists_eq_left']
  | _ => simp [hasType]

theorem schemaAccepts_optional {payload : PayloadType} {schema value : Value} :
    schemaAccepts (openaiOptionalSchema payload schema) value = true ↔
      schemaAccepts schema value = true ∨ openaiValueIsOmitted payload (some value) = true := by
  have homission : schemaAccepts (omissionSchema payload) value = true ↔
      openaiValueIsOmitted payload (some value) = true := by
    cases payload <;> cases value <;>
      simp [omissionSchema, typeSchema, hasType, openaiValueIsOmitted, Value.asStr, eq_comm]
  rw [← homission, openaiOptionalSchema]
  simp [anyAccepts_pair]

/-! ## The field loops -/

/-- A loop that changes the value of one field after another, and no other value. -/
structure FieldLoop
    (loop : List (FieldName × Bool × PayloadType) → OrdMap String Value → OrdMap String Value)
    (change : RecordField → Option Value → Option Value) : Prop where
  nil : ∀ values, loop [] values = values
  cons : ∀ field fields values, ∃ values', loop (field :: fields) values = loop fields values' ∧
    OrdMap.get? values' field.1.asStr = change field.2 (OrdMap.get? values field.1.asStr) ∧
    (∀ key, key ≠ field.1.asStr → OrdMap.get? values' key = OrdMap.get? values key) ∧
    (OrdMap.Sorted values → OrdMap.Sorted values')

namespace FieldLoop

variable {loop : List (FieldName × Bool × PayloadType) → OrdMap String Value → OrdMap String Value}
  {change : RecordField → Option Value → Option Value}
  {fields : List (FieldName × Bool × PayloadType)}

theorem get?_other (h : FieldLoop loop change) {key : String}
    (hkey : ∀ field ∈ fields, field.1.asStr ≠ key) (values : OrdMap String Value) :
    OrdMap.get? (loop fields values) key = OrdMap.get? values key := by
  induction fields generalizing values with
  | nil => rw [h.nil]
  | cons field fields ih =>
    obtain ⟨hfirst, hrest⟩ := List.forall_mem_cons.mp hkey
    obtain ⟨values', heq, -, hother, -⟩ := h.cons field fields values
    rw [heq, ih hrest, hother key hfirst.symm]

theorem get?_field (h : FieldLoop loop change) (hsorted : OrdMap.Sorted fields)
    (values : OrdMap String Value) : ∀ field ∈ fields,
      OrdMap.get? (loop fields values) field.1.asStr =
        change field.2 (OrdMap.get? values field.1.asStr) := by
  induction fields generalizing values with
  | nil => exact List.forall_mem_nil _
  | cons first fields ih =>
    have hne : ∀ field ∈ fields, field.1.asStr ≠ first.1.asStr := fun field hfield he =>
      PayloadType.head_ne_of_sorted hsorted hfield (Identifier.asStr_inj.mp he)
    obtain ⟨values', heq, hfirst, hother, -⟩ := h.cons first fields values
    rw [heq, List.forall_mem_cons, h.get?_other hne, hfirst]
    refine ⟨rfl, fun field hfield => ?_⟩
    rw [ih (OrdMap.sorted_cons.mp hsorted).2 values' field hfield, hother _ (hne field hfield)]

theorem sorted (h : FieldLoop loop change) {values : OrdMap String Value}
    (hvalues : OrdMap.Sorted values) : OrdMap.Sorted (loop fields values) := by
  induction fields generalizing values with
  | nil => rwa [h.nil]
  | cons field fields ih =>
    obtain ⟨values', heq, -, -, hkeep⟩ := h.cons field fields values
    rw [heq]
    exact ih (hkeep hvalues)

end FieldLoop

/-- What normalizing does to the value of a field. -/
def normalizeField (field : RecordField) (value : Option Value) : Option Value :=
  if !field.1 && openaiValueIsOmitted field.2 value then none
  else value.map (normalizeOpenaiPayload field.2)

/-- What encoding does to the value of a field. -/
def encodeField (field : RecordField) (value : Option Value) : Option Value :=
  some (value.elim (openaiOmission field.2) (encodeOpenaiPayload field.2))

theorem normalizeFields_loop : FieldLoop normalizeFields normalizeField where
  nil _ := rfl
  cons field fields values := by
    obtain ⟨name, required, type⟩ := field
    rw [normalizeFields, normalizeField]
    by_cases homitted :
        (!required && openaiValueIsOmitted type (OrdMap.get? values name.asStr)) = true
    · rw [if_pos homitted, if_pos homitted]
      exact ⟨_, rfl, OrdMap.get?_remove_self _ _, fun key hkey => OrdMap.get?_remove_ne hkey _,
        fun hsorted => OrdMap.sorted_remove hsorted _⟩
    · rw [if_neg homitted, if_neg homitted]
      cases hget : OrdMap.get? values name.asStr with
      | none => exact ⟨values, rfl, hget, fun _ _ => rfl, id⟩
      | some value =>
        exact ⟨_, rfl, OrdMap.get?_insert_self _ _ _,
          fun key hkey => OrdMap.get?_insert_ne hkey _ _,
          fun hsorted => OrdMap.sorted_insert hsorted _ _⟩

theorem encodeFields_loop : FieldLoop encodeFields encodeField where
  nil _ := rfl
  cons field fields values := by
    obtain ⟨name, required, type⟩ := field
    rw [encodeFields, encodeField]
    cases hget : OrdMap.get? values name.asStr with
    | none =>
      exact ⟨_, rfl, OrdMap.get?_insert_self _ _ _, fun key hkey => OrdMap.get?_insert_ne hkey _ _,
        fun hsorted => OrdMap.sorted_insert hsorted _ _⟩
    | some value =>
      exact ⟨_, rfl, OrdMap.get?_insert_self _ _ _, fun key hkey => OrdMap.get?_insert_ne hkey _ _,
        fun hsorted => OrdMap.sorted_insert hsorted _ _⟩

/-! ## Strict schemas -/

/-- The strict schema of a field. -/
def strictFieldSchema (field : RecordField) : Value :=
  if field.1 then payloadSchema field.2 .openAiStrict
  else openaiOptionalSchema field.2 (payloadSchema field.2 .openAiStrict)

theorem fieldSchemas_eq (fields : List (FieldName × Bool × PayloadType)) :
    fieldSchemas fields .openAiStrict =
      fields.map fun field => (field.1.asStr, strictFieldSchema field.2) := by
  induction fields with
  | nil => rfl
  | cons field fields ih =>
    obtain ⟨name, required, type⟩ := field
    rw [fieldSchemas, ih, List.map_cons, strictFieldSchema]
    cases required <;> rfl

/-- The strict schema of a record: every field present and accepted, and no other key. -/
theorem schemaAccepts_record {fields : List (FieldName × Bool × PayloadType)} {value : Value} :
    schemaAccepts (payloadSchema (.record fields) .openAiStrict) value = true ↔
      ∃ object, value = .object object ∧
        (∀ field ∈ fields, ∃ value, OrdMap.get? object field.1.asStr = some value) ∧
        (∀ field ∈ fields, ∀ value, OrdMap.get? object field.1.asStr = some value →
          schemaAccepts (strictFieldSchema field.2) value = true) ∧
        ∀ e ∈ object, ∃ field ∈ fields, field.1.asStr = e.1 := by
  have hrequired : (fields.filter fun field =>
      field.2.1 || decide (ProviderSchemaDialect.openAiStrict = .openAiStrict)) = fields := by
    simp
  have hdeclared : ∀ key, OrdMap.contains
      (fields.map fun field => (field.1.asStr, strictFieldSchema field.2)) key = true ↔
        ∃ field ∈ fields, field.1.asStr = key := by
    intro key
    rw [OrdMap.contains, ← Bool.not_eq_false, Option.isSome_eq_false_iff, Option.isNone_iff_eq_none,
      OrdMap.get?_eq_none, List.forall_mem_map]
    push Not
    rfl
  rw [payloadSchema, hrequired, fieldSchemas_eq, schemaAccepts_closedObject]
  simp only [hdeclared, List.forall_mem_map]
  simp only [OrdMap.contains, Option.isSome_iff_exists]
  constructor
  · rintro ⟨object, heq, hkeys, haccepted, hpresent⟩
    exact ⟨object, heq, hpresent, haccepted, hkeys⟩
  · rintro ⟨object, heq, hpresent, haccepted, hkeys⟩
    exact ⟨object, heq, hkeys, haccepted, hpresent⟩

theorem schemaAccepts_strictField {field : RecordField} {value : Value} :
    schemaAccepts (strictFieldSchema field) value = true ↔
      schemaAccepts (payloadSchema field.2 .openAiStrict) value = true ∨
        (field.1 = false ∧ openaiValueIsOmitted field.2 (some value) = true) := by
  obtain ⟨required, type⟩ := field
  cases required with
  | true => simp [strictFieldSchema]
  | false => simp [strictFieldSchema, schemaAccepts_optional]

/-- The stand-in of an absent field is recognized. -/
theorem omission_isOmitted (payload : PayloadType) :
    openaiValueIsOmitted payload (some (openaiOmission payload)) = true := by
  cases payload <;> simp [openaiValueIsOmitted, openaiOmission, Value.asStr]

/-- No encoded value of a type is taken for an absent field. -/
theorem encode_not_omitted {payload : PayloadType} {value : Value} (h : payload.Accepts value) :
    openaiValueIsOmitted payload (some (encodeOpenaiPayload payload value)) = false := by
  have haccepts := h "$"
  cases payload <;> cases value <;>
    simp [PayloadType.validateValueAt, PayloadType.expectType, PayloadType.validateArray,
      PayloadType.validateEnum, Value.asArray, Value.asObject, Value.asStr,
      Value.isJsonInteger] at haccepts <;>
    simp [openaiValueIsOmitted, encodeOpenaiPayload, Value.asStr]

/-- **What the strict schema accepts, normalization turns into a value of the type.** -/
theorem accepts_normalize {type : PayloadType} (hkeyed : type.keyed = true) {value : Value}
    (h : schemaAccepts (payloadSchema type .openAiStrict) value = true) :
    type.Accepts (normalizeOpenaiPayload type value) := by
  induction type using PayloadType.induct generalizing value with
  | null | boolean | integer | number | string =>
    rw [payloadSchema, schemaAccepts_type] at h
    refine fun _ => PayloadType.expectType_ok.mpr ?_
    cases value <;> simp_all [hasType, normalizeOpenaiPayload]
  | enum values =>
    rw [payloadSchema, schemaAccepts_enum] at h
    obtain ⟨label, hlabel, rfl⟩ := h
    obtain ⟨known, hknown, rfl⟩ := List.mem_map.mp hlabel
    refine PayloadType.accepts_enum.mpr ⟨known.asStr, rfl, ?_⟩
    rw [NonEmptyEnumSet.contains, List.any_eq_true]
    exact ⟨known, hknown, beq_self_eq_true _⟩
  | array items ih =>
    rw [payloadSchema, schemaAccepts_array] at h
    obtain ⟨values, rfl, hvalues⟩ := h
    refine PayloadType.accepts_array.mpr ⟨values.map (normalizeOpenaiPayload items), rfl, ?_⟩
    exact List.forall_mem_map.mpr fun value hvalue => ih hkeyed (hvalues value hvalue)
  | record fields ih =>
    obtain ⟨object, rfl, hpresent, haccepted, hkeys⟩ := schemaAccepts_record.mp h
    obtain ⟨hsorted, hfields⟩ := PayloadType.keyed_record.mp hkeyed
    refine PayloadType.accepts_record.mpr ⟨normalizeFields fields object, rfl, ?_, ?_⟩
    · intro field hfield
      obtain ⟨value, hget⟩ := hpresent field hfield
      rw [normalizeFields_loop.get?_field hsorted object field hfield, hget, normalizeField]
      by_cases homitted : (!field.2.1 && openaiValueIsOmitted field.2.2 (some value)) = true
      · rw [if_pos homitted]
        rw [Bool.and_eq_true, Bool.not_eq_true'] at homitted
        exact homitted.1
      · rw [if_neg homitted]
        refine ih field hfield (hfields field hfield) ?_
        rcases schemaAccepts_strictField.mp (haccepted field hfield value hget) with
          hvalue | habsent
        · exact hvalue
        · exact absurd (by rw [habsent.1, habsent.2]; rfl) homitted
    · intro e he
      by_contra hundeclared
      have hother := normalizeFields_loop.get?_other
        (fun field hfield heq => hundeclared ⟨field, hfield, heq⟩) object
      have hnone : OrdMap.get? object e.1 = none := by
        rw [OrdMap.get?_eq_none]
        intro e' he' heq
        obtain ⟨field, hfield, hname⟩ := hkeys e' he'
        exact hundeclared ⟨field, hfield, hname.trans heq⟩
      rw [hnone, OrdMap.get?_eq_none] at hother
      exact hother e he rfl

/-- A record's object has no key outside its fields. -/
theorem get?_undeclared {fields : List (FieldName × Bool × PayloadType)}
    {object : OrdMap String Value} (hkeys : ∀ e ∈ object, ∃ field ∈ fields, field.1.asStr = e.1)
    {key : String} (hkey : ∀ field ∈ fields, field.1.asStr ≠ key) :
    OrdMap.get? object key = none := by
  rw [OrdMap.get?_eq_none]
  intro e he heq
  obtain ⟨field, hfield, hname⟩ := hkeys e he
  exact hkey field hfield (hname.trans heq)

/-- **Every value of the type is the normal form of an accepted value.** -/
theorem encode_spec {type : PayloadType} (hkeyed : type.keyed = true) {value : Value}
    (hvalue : value.keyed = true) (h : type.Accepts value) :
    schemaAccepts (payloadSchema type .openAiStrict) (encodeOpenaiPayload type value) = true ∧
      normalizeOpenaiPayload type (encodeOpenaiPayload type value) = value := by
  induction type using PayloadType.induct generalizing value with
  | null | boolean | integer | number | string =>
    have hexpected := PayloadType.expectType_ok.mp (h "$")
    refine ⟨?_, rfl⟩
    rw [payloadSchema, schemaAccepts_type]
    cases value <;> simp_all [hasType, encodeOpenaiPayload, Value.isJsonInteger]
  | enum values =>
    obtain ⟨label, rfl, hlabel⟩ := PayloadType.accepts_enum.mp h
    refine ⟨?_, rfl⟩
    rw [NonEmptyEnumSet.contains, List.any_eq_true] at hlabel
    obtain ⟨known, hknown, heq⟩ := hlabel
    rw [payloadSchema, schemaAccepts_enum]
    exact ⟨known.asStr, List.mem_map_of_mem hknown, by rw [eq_of_beq heq]; rfl⟩
  | array items ih =>
    obtain ⟨values, rfl, hvalues⟩ := PayloadType.accepts_array.mp h
    have hitems := Value.keyed_array.mp hvalue
    have hspec := fun value hin => ih hkeyed (hitems value hin) (hvalues value hin)
    constructor
    · rw [payloadSchema, schemaAccepts_array]
      exact ⟨_, rfl, List.forall_mem_map.mpr fun value hin => (hspec value hin).1⟩
    · change Value.array ((values.map (encodeOpenaiPayload items)).map
        (normalizeOpenaiPayload items)) = .array values
      congr 1
      rw [List.map_map]
      exact (List.map_congr_left fun value hin => (hspec value hin).2).trans (List.map_id values)
  | record fields ih =>
    obtain ⟨object, rfl, haccepted, hkeys⟩ := PayloadType.accepts_record.mp h
    obtain ⟨hsorted, hfields⟩ := PayloadType.keyed_record.mp hkeyed
    obtain ⟨hobject, hvalues⟩ := Value.keyed_object.mp hvalue
    have hencoded := encodeFields_loop.get?_field hsorted object
    have hspec : ∀ field ∈ fields, ∀ value, OrdMap.get? object field.1.asStr = some value →
        field.2.2.Accepts value ∧
        schemaAccepts (payloadSchema field.2.2 .openAiStrict)
          (encodeOpenaiPayload field.2.2 value) = true ∧
        normalizeOpenaiPayload field.2.2 (encodeOpenaiPayload field.2.2 value) = value := by
      intro field hfield value hget
      have hfield' := haccepted field hfield
      rw [hget] at hfield'
      exact ⟨hfield', ih field hfield (hfields field hfield)
        (hvalues _ (OrdMap.mem_of_get? hget)) hfield'⟩
    have habsent : ∀ field ∈ fields, OrdMap.get? object field.1.asStr = none →
        field.2.1 = false := by
      intro field hfield hget
      have hfield' := haccepted field hfield
      rwa [hget] at hfield'
    constructor
    · refine schemaAccepts_record.mpr ⟨encodeFields fields object, rfl, ?_, ?_, ?_⟩
      · exact fun field hfield => ⟨_, hencoded field hfield⟩
      · intro field hfield value hvalue
        rw [hencoded field hfield] at hvalue
        rw [schemaAccepts_strictField]
        cases hget : OrdMap.get? object field.1.asStr with
        | some inner =>
          rw [hget] at hvalue
          cases hvalue
          exact .inl (hspec field hfield inner hget).2.1
        | none =>
          rw [hget] at hvalue
          cases hvalue
          exact .inr ⟨habsent field hfield hget, omission_isOmitted field.2.2⟩
      · intro e he
        by_contra hundeclared
        have hkey : ∀ field ∈ fields, field.1.asStr ≠ e.1 :=
          fun field hfield heq => hundeclared ⟨field, hfield, heq⟩
        have hnone := encodeFields_loop.get?_other hkey object
        rw [get?_undeclared hkeys hkey, OrdMap.get?_eq_none] at hnone
        exact hnone e he rfl
    · change Value.object (normalizeFields fields (encodeFields fields object)) = .object object
      congr 1
      refine OrdMap.eq_of_get? (normalizeFields_loop.sorted (encodeFields_loop.sorted hobject))
        hobject fun key => ?_
      by_cases hdeclared : ∃ field ∈ fields, field.1.asStr = key
      · obtain ⟨field, hfield, rfl⟩ := hdeclared
        rw [normalizeFields_loop.get?_field hsorted _ field hfield, hencoded field hfield,
          normalizeField, encodeField]
        cases hget : OrdMap.get? object field.1.asStr with
        | some value =>
          obtain ⟨hin, -, hnormal⟩ := hspec field hfield value hget
          rw [Option.elim_some, encode_not_omitted hin, Bool.and_false,
            if_neg Bool.false_ne_true, Option.map_some, hnormal]
        | none =>
          rw [Option.elim_none, habsent field hfield hget, omission_isOmitted]
          rfl
      · have hkey : ∀ field ∈ fields, field.1.asStr ≠ key :=
          fun field hfield heq => hdeclared ⟨field, hfield, heq⟩
        rw [normalizeFields_loop.get?_other hkey, encodeFields_loop.get?_other hkey]

/-- **Strict provider schemas lose nothing.** Every value the strict schema of a type accepts is
normalized into a value of the type, and every value of the type is what an accepted value, with
absent optional fields written as their stand-ins, is normalized into. -/
theorem strict_schema_lossless (type : PayloadType) (hkeyed : type.keyed = true) :
    (∀ value, schemaAccepts (payloadSchema type .openAiStrict) value = true →
      type.validateValue (normalizeOpenaiPayload type value) = .ok ()) ∧
    ∀ value, value.keyed = true → type.validateValue value = .ok () →
      schemaAccepts (payloadSchema type .openAiStrict) (encodeOpenaiPayload type value) = true ∧
        normalizeOpenaiPayload type (encodeOpenaiPayload type value) = value :=
  ⟨fun _ h => PayloadType.validateValue_ok.mpr (accepts_normalize hkeyed h),
    fun _ hvalue h => encode_spec hkeyed hvalue (PayloadType.validateValue_ok.mp h)⟩

namespace PayloadType.Sample

def fieldX : FieldName := ⟨"x", by decide⟩

/-- A list of records whose fields are optional, and an optional record. -/
def nestedType : PayloadType :=
  .record [(⟨"i", by decide⟩, true,
      .array (.record [(⟨"left", by decide⟩, false, .null), (fieldX, false, .string)])),
    (⟨"r", by decide⟩, false, .record [(fieldX, true, .string)])]

/-- One item has no field, the other has both; there is no record `r`. -/
def nestedValue : Value :=
  .object [("i", .array [.object [], .object [("left", .null), ("x", .string "s")]])]

/-- The value with a stand-in for every absent field. -/
def nestedEncoded : Value :=
  .object [("i", .array [.object [("left", .string openaiOptionalNullOmission), ("x", .null)],
    .object [("left", .null), ("x", .string "s")]]), ("r", .null)]

end PayloadType.Sample

open PayloadType.Sample in
/-- Absent optional fields below a list and a record are written as their stand-ins: the sentinel
for a `null` field, and `null` for the others. -/
theorem strict_schema_lossless_nested :
    encodeOpenaiPayload nestedType nestedValue = nestedEncoded ∧
      schemaAccepts (payloadSchema nestedType .openAiStrict) nestedEncoded = true ∧
      nestedType.validateValue (normalizeOpenaiPayload nestedType nestedEncoded) = .ok () ∧
      normalizeOpenaiPayload nestedType nestedEncoded = nestedValue := by
  have hencoded : encodeOpenaiPayload nestedType nestedValue = nestedEncoded := by decide
  obtain ⟨hvalid, hlossless⟩ := strict_schema_lossless nestedType (by decide)
  obtain ⟨haccepted, hnormal⟩ := hlossless nestedValue (by decide) (by decide)
  rw [hencoded] at haccepted hnormal
  exact ⟨hencoded, haccepted, hvalid nestedEncoded haccepted, hnormal⟩

end Zeroshot
