import Zeroshot.Protocol.Validation

set_option autoImplicit false

/-!
# Materialized fields

A target type adds deterministic empty values to an incoming record, and `materializedSubtypeOf`
predicts the type of the result without seeing the value. The two are written separately; here
they are compared field by field. `materialization_sound` is the outcome: the materialized value
fits the predicted type and the target, it only grows, and a second pass changes nothing.
-/

namespace Zeroshot

/-! ## Keyed values -/

namespace Value

mutual

/-- The keys of every object of the value increase strictly. -/
def keyed : Value → Bool
  | .object fields => decide (OrdMap.Sorted fields) && fieldsKeyed fields
  | .array items => itemsKeyed items
  | _ => true

def itemsKeyed : List Value → Bool
  | [] => true
  | value :: values => keyed value && itemsKeyed values

def fieldsKeyed : List (String × Value) → Bool
  | [] => true
  | (_, value) :: fields => keyed value && fieldsKeyed fields

end

theorem fieldsKeyed_iff {fields : List (String × Value)} :
    fieldsKeyed fields = true ↔ ∀ e ∈ fields, e.2.keyed = true := by
  induction fields with
  | nil => simp [fieldsKeyed]
  | cons e fields ih =>
    obtain ⟨key, value⟩ := e
    simp [fieldsKeyed, ih]

theorem itemsKeyed_iff {items : List Value} :
    itemsKeyed items = true ↔ ∀ item ∈ items, item.keyed = true := by
  induction items with
  | nil => simp [itemsKeyed]
  | cons item items ih => simp [itemsKeyed, ih]

theorem keyed_array {items : List Value} :
    (array items).keyed = true ↔ ∀ item ∈ items, item.keyed = true := by
  rw [keyed, itemsKeyed_iff]

theorem keyed_object {fields : List (String × Value)} :
    (object fields).keyed = true ↔ OrdMap.Sorted fields ∧ ∀ e ∈ fields, e.2.keyed = true := by
  simp [keyed, fieldsKeyed_iff]

end Value

namespace PayloadType

/-! ## Implicit empty values -/

/-- What the loop of `implicit_empty_value` leaves in the object it builds. -/
theorem implicitEmptyFields_spec {fields : List (FieldName × Bool × PayloadType)}
    (hsorted : OrdMap.Sorted fields) {object object' : OrdMap String Value}
    (h : implicitEmptyFields fields object = some object') :
    (∀ f ∈ fields, f.2.1 = true → ∃ value, implicitEmptyValue f.2.2 = some value ∧
      OrdMap.get? object' f.1.asStr = some value) ∧
    ∀ key, (∀ f ∈ fields, f.2.1 = true → f.1.asStr ≠ key) →
      OrdMap.get? object' key = OrdMap.get? object key := by
  induction fields generalizing object with
  | nil =>
    cases h
    exact ⟨List.forall_mem_nil _, fun _ _ => rfl⟩
  | cons g fields ih =>
    have hne : ∀ f ∈ fields, f.1.asStr ≠ g.1.asStr := fun f hf he =>
      head_ne_of_sorted hsorted hf (Identifier.asStr_inj.mp he)
    have hrest := (OrdMap.sorted_cons.mp hsorted).2
    obtain ⟨name, required, type⟩ := g
    rw [implicitEmptyFields] at h
    cases required with
    | false =>
      rw [if_neg Bool.false_ne_true] at h
      obtain ⟨hpresent, hother⟩ := ih hrest h
      refine ⟨List.forall_mem_cons.mpr ⟨fun hr => absurd hr Bool.false_ne_true, hpresent⟩, ?_⟩
      intro key hkey
      exact hother key (List.forall_mem_cons.mp hkey).2
    | true =>
      rw [if_pos rfl] at h
      cases hv : implicitEmptyValue type with
      | none => rw [hv] at h; cases h
      | some value =>
        rw [hv] at h
        obtain ⟨hpresent, hother⟩ := ih hrest h
        refine ⟨List.forall_mem_cons.mpr ⟨fun _ => ⟨value, hv, ?_⟩, hpresent⟩, ?_⟩
        · rw [hother name.asStr (fun f hf _ => hne f hf)]
          exact OrdMap.get?_insert_self _ _ _
        · intro key hkey
          rw [List.forall_mem_cons] at hkey
          rw [hother key hkey.2]
          exact OrdMap.get?_insert_ne (fun he => hkey.1 rfl he.symm) _ _

theorem sorted_implicitEmptyFields {fields : List (FieldName × Bool × PayloadType)}
    {object object' : OrdMap String Value} (hsorted : object.Sorted)
    (h : implicitEmptyFields fields object = some object') : object'.Sorted := by
  induction fields generalizing object with
  | nil =>
    cases h
    exact hsorted
  | cons g fields ih =>
    obtain ⟨name, required, type⟩ := g
    rw [implicitEmptyFields] at h
    split at h
    · cases hv : implicitEmptyValue type with
      | none => rw [hv] at h; cases h
      | some value =>
        rw [hv] at h
        exact ih (OrdMap.sorted_insert hsorted _ _) h
    · exact ih hsorted h

theorem implicitEmptyValue_record {fields : List (FieldName × Bool × PayloadType)} {value : Value}
    (h : implicitEmptyValue (.record fields) = some value) :
    ∃ object, value = .object object ∧ implicitEmptyFields fields [] = some object := by
  rw [implicitEmptyValue, Option.map_eq_some_iff] at h
  obtain ⟨object, ho, rfl⟩ := h
  exact ⟨object, rfl, ho⟩

/-- The implicit empty object holds the required fields and nothing else. -/
theorem get?_implicitEmpty {fields : List (FieldName × Bool × PayloadType)}
    (hsorted : OrdMap.Sorted fields) {object : OrdMap String Value}
    (h : implicitEmptyFields fields [] = some object) {f : FieldName × Bool × PayloadType}
    (hf : f ∈ fields) : OrdMap.get? object f.1.asStr =
      if f.2.1 then implicitEmptyValue f.2.2 else none := by
  obtain ⟨hpresent, hother⟩ := implicitEmptyFields_spec hsorted h
  cases hr : f.2.1 with
  | true =>
    obtain ⟨value, hv, hget⟩ := hpresent f hf hr
    rw [hget, if_pos rfl, hv]
  | false =>
    rw [if_neg Bool.false_ne_true]
    refine hother f.1.asStr fun g hg hreq he => ?_
    have hname : g.1 = f.1 := Identifier.asStr_inj.mp he
    have hsame : some g.2 = some f.2 := by
      rw [← OrdMap.get?_of_mem hsorted hg, ← OrdMap.get?_of_mem hsorted hf, hname]
    rw [Option.some.inj hsame, hr] at hreq
    cases hreq

/-- The implicit empty value of a type is a value of it. -/
theorem accepts_implicitEmptyValue {type : PayloadType} (hkeyed : type.keyed = true)
    {value : Value} (h : implicitEmptyValue type = some value) : type.Accepts value := by
  induction type using induct generalizing value with
  | null => cases h; exact fun _ => rfl
  | boolean => cases h
  | integer => cases h
  | number => cases h
  | string => cases h; exact fun _ => rfl
  | enum values => cases h
  | array items ih => cases h; exact accepts_array_of (List.forall_mem_nil _)
  | record fields ih =>
    rw [keyed_record] at hkeyed
    obtain ⟨object, rfl, ho⟩ := implicitEmptyValue_record h
    refine accepts_record_of (fun f hf => ?_) (fun e he => ?_)
    · cases hr : f.2.1 with
      | true =>
        obtain ⟨value, hv, hget⟩ := (implicitEmptyFields_spec hkeyed.1 ho).1 f hf hr
        rw [hget]
        exact ih f hf (hkeyed.2 f hf) hv
      | false =>
        rw [get?_implicitEmpty hkeyed.1 ho hf, hr]
        exact hr
    · by_contra hnone
      have hkey : OrdMap.get? object e.1 = none :=
        (implicitEmptyFields_spec hkeyed.1 ho).2 e.1 fun f hf _ he => hnone ⟨f, hf, he⟩
      exact OrdMap.get?_eq_none.mp hkey e he rfl

/-! ## The materialized value -/

/-- What materialization leaves at a declared field, by what was there. -/
def fieldMaterialized (field : RecordField) (value : Option Value) : Option Value :=
  match value with
  | some value => some (field.2.materializeMissingFields value)
  | none => if field.1 then implicitEmptyValue field.2 else none

/-- One turn of the loop of `materialize_missing_fields`. -/
def materializeField (name : FieldName) (field : RecordField) (object : OrdMap String Value) :
    OrdMap String Value :=
  match fieldMaterialized field (OrdMap.get? object name.asStr) with
  | some value => OrdMap.insert name.asStr value object
  | none => object

theorem materializeFields_cons (f : FieldName × Bool × PayloadType)
    (fields : List (FieldName × Bool × PayloadType)) (object : OrdMap String Value) :
    materializeFields (f :: fields) object =
      materializeFields fields (materializeField f.1 f.2 object) := by
  obtain ⟨name, required, type⟩ := f
  cases ho : OrdMap.get? object name.asStr with
  | some value => simp only [materializeFields, materializeField, fieldMaterialized, ho]
  | none =>
    cases required with
    | false => simp [materializeFields, materializeField, fieldMaterialized, ho]
    | true =>
      cases hv : implicitEmptyValue type with
      | none => simp [materializeFields, materializeField, fieldMaterialized, ho, hv]
      | some value => simp [materializeFields, materializeField, fieldMaterialized, ho, hv]

theorem get?_materializeField_self (name : FieldName) (field : RecordField)
    (object : OrdMap String Value) :
    OrdMap.get? (materializeField name field object) name.asStr =
      fieldMaterialized field (OrdMap.get? object name.asStr) := by
  unfold materializeField
  cases hv : fieldMaterialized field (OrdMap.get? object name.asStr) with
  | some value => exact OrdMap.get?_insert_self _ _ _
  | none =>
    -- nothing is added only where nothing was
    cases ho : OrdMap.get? object name.asStr with
    | none => rfl
    | some value => rw [ho] at hv; cases hv

theorem get?_materializeField_ne {name : FieldName} {key : String} (h : key ≠ name.asStr)
    (field : RecordField) (object : OrdMap String Value) :
    OrdMap.get? (materializeField name field object) key = OrdMap.get? object key := by
  unfold materializeField
  split
  · exact OrdMap.get?_insert_ne h _ _
  · rfl

theorem sorted_materializeField {object : OrdMap String Value} (h : object.Sorted)
    (name : FieldName) (field : RecordField) : (materializeField name field object).Sorted := by
  unfold materializeField
  split
  · exact OrdMap.sorted_insert h _ _
  · exact h

theorem sorted_materializeFields {fields : List (FieldName × Bool × PayloadType)}
    {object : OrdMap String Value} (h : object.Sorted) :
    (materializeFields fields object).Sorted := by
  induction fields generalizing object with
  | nil => exact h
  | cons f fields ih =>
    rw [materializeFields_cons]
    exact ih (sorted_materializeField h _ _)

theorem get?_materializeFields_other {fields : List (FieldName × Bool × PayloadType)}
    {key : String} (h : ∀ f ∈ fields, f.1.asStr ≠ key) (object : OrdMap String Value) :
    OrdMap.get? (materializeFields fields object) key = OrdMap.get? object key := by
  induction fields generalizing object with
  | nil => rfl
  | cons f fields ih =>
    rw [List.forall_mem_cons] at h
    rw [materializeFields_cons, ih h.2, get?_materializeField_ne (Ne.symm h.1)]

/-- Each declared field is materialized from the value it had before the loop. -/
theorem get?_materializeFields {fields : List (FieldName × Bool × PayloadType)}
    (hsorted : OrdMap.Sorted fields) {f : FieldName × Bool × PayloadType} (hf : f ∈ fields)
    (object : OrdMap String Value) :
    OrdMap.get? (materializeFields fields object) f.1.asStr =
      fieldMaterialized f.2 (OrdMap.get? object f.1.asStr) := by
  induction fields generalizing object with
  | nil => cases hf
  | cons g fields ih =>
    have hne : ∀ f ∈ fields, f.1.asStr ≠ g.1.asStr := fun f hf he =>
      head_ne_of_sorted hsorted hf (Identifier.asStr_inj.mp he)
    rw [materializeFields_cons]
    rcases List.mem_cons.mp hf with rfl | hin
    · rw [get?_materializeFields_other hne, get?_materializeField_self]
    · rw [ih (OrdMap.sorted_cons.mp hsorted).2 hin, get?_materializeField_ne (hne f hin)]

/-- A declared field that is as materialization leaves it is left alone. -/
theorem materializeFields_eq_self {fields : List (FieldName × Bool × PayloadType)}
    {object : OrdMap String Value} (hsorted : object.Sorted)
    (h : ∀ f ∈ fields, fieldMaterialized f.2 (OrdMap.get? object f.1.asStr) =
      OrdMap.get? object f.1.asStr) :
    materializeFields fields object = object := by
  induction fields with
  | nil => rfl
  | cons f fields ih =>
    rw [List.forall_mem_cons] at h
    have hself : materializeField f.1 f.2 object = object := by
      unfold materializeField
      rw [h.1]
      cases ho : OrdMap.get? object f.1.asStr with
      | none => rfl
      | some value => exact OrdMap.insert_eq_self hsorted ho
    rw [materializeFields_cons, hself, ih h.2]

/-- The implicit empty value of a type has nothing left to add. -/
theorem materialize_implicitEmptyValue {type : PayloadType} (hkeyed : type.keyed = true)
    {value : Value} (h : implicitEmptyValue type = some value) :
    type.materializeMissingFields value = value := by
  induction type using induct generalizing value with
  | null => rfl
  | boolean => rfl
  | integer => rfl
  | number => rfl
  | string => rfl
  | enum values => rfl
  | array items ih => rfl
  | record fields ih =>
    rw [keyed_record] at hkeyed
    obtain ⟨object, rfl, ho⟩ := implicitEmptyValue_record h
    have hsorted : OrdMap.Sorted object := sorted_implicitEmptyFields OrdMap.sorted_nil ho
    have hself : materializeFields fields object = object := by
      refine materializeFields_eq_self hsorted fun f hf => ?_
      rw [get?_implicitEmpty hkeyed.1 ho hf]
      cases hr : f.2.1 with
      | false => simp [fieldMaterialized, hr]
      | true =>
        rw [if_pos rfl]
        cases hv : implicitEmptyValue f.2.2 with
        | none => simp [fieldMaterialized, hr, hv]
        | some value => exact congrArg some (ih f hf (hkeyed.2 f hf) hv)
    rw [materializeMissingFields, hself]

/-- A second pass changes nothing. -/
theorem materialize_idempotent {type : PayloadType} (hkeyed : type.keyed = true) {value : Value}
    (hvalue : value.keyed = true) :
    type.materializeMissingFields (type.materializeMissingFields value) =
      type.materializeMissingFields value := by
  induction type using induct generalizing value with
  | null => rfl
  | boolean => rfl
  | integer => rfl
  | number => rfl
  | string => rfl
  | enum values => rfl
  | array items ih => rfl
  | record fields ih =>
    cases value <;> try rfl
    rename_i object
    rw [keyed_record] at hkeyed
    rw [Value.keyed_object] at hvalue
    have hself : materializeFields fields (materializeFields fields object) =
        materializeFields fields object := by
      refine materializeFields_eq_self (sorted_materializeFields hvalue.1) fun f hf => ?_
      rw [get?_materializeFields hkeyed.1 hf]
      cases ho : OrdMap.get? object f.1.asStr with
      | some value =>
        exact congrArg some (ih f hf (hkeyed.2 f hf) (hvalue.2 _ (OrdMap.mem_of_get? ho)))
      | none =>
        cases hr : f.2.1 with
        | false => simp [fieldMaterialized, hr]
        | true =>
          cases hv : implicitEmptyValue f.2.2 with
          | none => simp [fieldMaterialized, hr, hv]
          | some value =>
            have hm := materialize_implicitEmptyValue (hkeyed.2 f hf) hv
            simp [fieldMaterialized, hr, hv, hm]
    simp only [materializeMissingFields, hself]

/-! ## Growth -/

/-- `after` is `before` with fields added: below a value that was there only where the target
declares it, next to it only where the target requires a field that was missing. -/
inductive Grown : PayloadType → Value → Value → Prop
  | unchanged (type : PayloadType) (value : Value) : Grown type value value
  | record {fields : List (FieldName × Bool × PayloadType)} {before after : OrdMap String Value}
      (undeclared : ∀ key, (∀ f ∈ fields, f.1.asStr ≠ key) →
        OrdMap.get? after key = OrdMap.get? before key)
      (kept : ∀ f ∈ fields, (OrdMap.get? before f.1.asStr).isSome →
        (OrdMap.get? after f.1.asStr).isSome)
      (below : ∀ f ∈ fields, ∀ old new, OrdMap.get? before f.1.asStr = some old →
        OrdMap.get? after f.1.asStr = some new → Grown f.2.2 old new)
      (added : ∀ f ∈ fields, OrdMap.get? before f.1.asStr = none →
        ∀ new, OrdMap.get? after f.1.asStr = some new →
          f.2.1 = true ∧ implicitEmptyValue f.2.2 = some new) :
      Grown (.record fields) (.object before) (.object after)

theorem grown_materialize {type : PayloadType} (hkeyed : type.keyed = true) (value : Value) :
    Grown type value (type.materializeMissingFields value) := by
  induction type using induct generalizing value with
  | null => exact .unchanged _ _
  | boolean => exact .unchanged _ _
  | integer => exact .unchanged _ _
  | number => exact .unchanged _ _
  | string => exact .unchanged _ _
  | enum values => exact .unchanged _ _
  | array items ih => exact .unchanged _ _
  | record fields ih =>
    cases value <;> try exact .unchanged _ _
    rename_i object
    rw [keyed_record] at hkeyed
    rw [materializeMissingFields]
    refine .record ?_ ?_ ?_ ?_
    · exact fun key hkey => get?_materializeFields_other hkey object
    · intro f hf hsome
      obtain ⟨old, ho⟩ := Option.isSome_iff_exists.mp hsome
      rw [get?_materializeFields hkeyed.1 hf, ho]
      rfl
    · intro f hf old new ho hn
      rw [get?_materializeFields hkeyed.1 hf, ho] at hn
      cases hn
      exact ih f hf (hkeyed.2 f hf) old
    · intro f hf ho new hn
      rw [get?_materializeFields hkeyed.1 hf, ho] at hn
      simp only [fieldMaterialized] at hn
      split at hn
      · exact ⟨‹_›, hn⟩
      · cases hn

/-! ## The predicted type -/

/-- The source field after `materialize_record_field`, `none` when the fields do not match. -/
def fieldPredicted (source : Option RecordField) (target : RecordField) :
    Option (Option RecordField) :=
  match source with
  | none =>
    if target.1 then (implicitEmptyValue target.2).map fun _ => some target else some none
  | some source =>
    match materializedSourceType source.2 target.2 with
    | none => none
    | some materializedType =>
      if target.1 && !source.1 then (implicitEmptyValue target.2).map fun _ => some (true, target.2)
      else some (some (source.1, materializedType))

/-- `materialize_record_field`. -/
def materializeRecordField (materialized : OrdMap FieldName RecordField) (name : FieldName)
    (target : RecordField) : Option (OrdMap FieldName RecordField) :=
  (fieldPredicted (OrdMap.get? materialized name) target).map fun field =>
    match field with
    | some field => OrdMap.insert name field materialized
    | none => materialized

theorem fieldPredicted_none {target : RecordField} {field : Option RecordField}
    (h : fieldPredicted none target = some field) :
    (target.1 = true ∧ (implicitEmptyValue target.2).isSome ∧ field = some target) ∨
      (target.1 = false ∧ field = none) := by
  simp only [fieldPredicted] at h
  cases hr : target.1 with
  | false =>
    rw [if_neg (by simp [hr])] at h
    cases h
    exact .inr ⟨rfl, rfl⟩
  | true =>
    rw [if_pos hr, Option.map_eq_some_iff] at h
    obtain ⟨value, hv, rfl⟩ := h
    exact .inl ⟨rfl, by simp [hv], rfl⟩

theorem fieldPredicted_some {source target : RecordField} {field : Option RecordField}
    (h : fieldPredicted (some source) target = some field) :
    ∃ type, materializedSourceType source.2 target.2 = some type ∧
      ((target.1 = true ∧ source.1 = false ∧ (implicitEmptyValue target.2).isSome ∧
          field = some (true, target.2)) ∨
        ((target.1 = true → source.1 = true) ∧ field = some (source.1, type))) := by
  simp only [fieldPredicted] at h
  cases hm : materializedSourceType source.2 target.2 with
  | none => rw [hm] at h; cases h
  | some type =>
    rw [hm] at h
    dsimp only at h
    refine ⟨type, rfl, ?_⟩
    by_cases hr : (target.1 && !source.1) = true
    · rw [if_pos hr, Option.map_eq_some_iff] at h
      obtain ⟨value, hv, rfl⟩ := h
      rw [Bool.and_eq_true, Bool.not_eq_true'] at hr
      exact .inl ⟨hr.1, hr.2, by simp [hv], rfl⟩
    · rw [if_neg hr] at h
      cases h
      refine .inr ⟨fun ht => ?_, rfl⟩
      simpa [ht] using hr

theorem materializedRecordFields_cons (materialized : OrdMap FieldName RecordField)
    (f : FieldName × Bool × PayloadType) (target : List (FieldName × Bool × PayloadType)) :
    materializedRecordFields materialized (f :: target) =
      (materializeRecordField materialized f.1 f.2).bind (materializedRecordFields · target) := by
  obtain ⟨name, required, type⟩ := f
  rw [materializedRecordFields, materializeRecordField]
  cases OrdMap.get? materialized name with
  | none =>
    cases required with
    | false => rfl
    | true => simp only [fieldPredicted]; cases implicitEmptyValue type <;> rfl
  | some source =>
    simp only [fieldPredicted]
    cases materializedSourceType source.2 type with
    | none => rfl
    | some materializedType =>
      dsimp only
      by_cases hr : (required && !source.1) = true
      · rw [if_pos hr, if_pos hr]
        cases implicitEmptyValue type <;> rfl
      · rw [if_neg hr, if_neg hr]
        rfl

theorem materializeRecordField_spec {materialized after : OrdMap FieldName RecordField}
    {name : FieldName} {target : RecordField}
    (h : materializeRecordField materialized name target = some after) :
    fieldPredicted (OrdMap.get? materialized name) target = some (OrdMap.get? after name) ∧
      (∀ other, other ≠ name → OrdMap.get? after other = OrdMap.get? materialized other) ∧
      (materialized.Sorted → after.Sorted) := by
  rw [materializeRecordField, Option.map_eq_some_iff] at h
  obtain ⟨field, hfield, rfl⟩ := h
  cases field with
  | some field =>
    dsimp only
    rw [OrdMap.get?_insert_self]
    exact ⟨hfield, fun other hne => OrdMap.get?_insert_ne hne _ _,
      fun hs => OrdMap.sorted_insert hs _ _⟩
  | none =>
    refine ⟨?_, fun _ _ => rfl, id⟩
    -- nothing is stored only where the source lacks the field
    cases hs : OrdMap.get? materialized name with
    | none =>
      rw [hs] at hfield
      exact hfield
    | some source =>
      rw [hs] at hfield
      obtain ⟨type, -, ⟨-, -, -, hc⟩ | ⟨-, hc⟩⟩ := fieldPredicted_some hfield
      · cases hc
      · cases hc

/-- The predicted record, field by field. -/
theorem materializedRecordFields_spec {target : List (FieldName × Bool × PayloadType)}
    (hsorted : OrdMap.Sorted target) {source predicted : OrdMap FieldName RecordField}
    (h : materializedRecordFields source target = some predicted) :
    (∀ f ∈ target, fieldPredicted (OrdMap.get? source f.1) f.2 =
      some (OrdMap.get? predicted f.1)) ∧
    (∀ name, (∀ f ∈ target, f.1 ≠ name) →
      OrdMap.get? predicted name = OrdMap.get? source name) ∧
    (source.Sorted → predicted.Sorted) := by
  induction target generalizing source with
  | nil =>
    cases h
    exact ⟨List.forall_mem_nil _, fun _ _ => rfl, id⟩
  | cons g target ih =>
    have hne : ∀ f ∈ target, f.1 ≠ g.1 := fun f hf => head_ne_of_sorted hsorted hf
    rw [materializedRecordFields_cons, Option.bind_eq_some_iff] at h
    obtain ⟨middle, hfirst, hlater⟩ := h
    obtain ⟨hfield, hother, hkeep⟩ := materializeRecordField_spec hfirst
    obtain ⟨hfields, hothers, hkeeps⟩ := ih (OrdMap.sorted_cons.mp hsorted).2 hlater
    refine ⟨List.forall_mem_cons.mpr ⟨?_, fun f hf => ?_⟩, fun name hname => ?_, ?_⟩
    · rw [hothers g.1 hne]
      exact hfield
    · rw [← hother f.1 (hne f hf)]
      exact hfields f hf
    · rw [List.forall_mem_cons] at hname
      rw [hothers name hname.2, hother name (Ne.symm hname.1)]
    · exact fun hs => hkeeps (hkeep hs)

/-! ## Soundness -/

/-- A value of a keyed type fits it. -/
theorem fits_of_accepts {type : PayloadType} (hkeyed : type.keyed = true) {value : Value}
    (h : type.Accepts value) : type.Fits value :=
  fits_of_isSubtypeOf hkeyed (isSubtypeOf_refl hkeyed) h

/-- Where the target is no record, the prediction is the source and nothing is added. -/
theorem materialized_fits_other {source target predicted : PayloadType}
    (hsource : source.keyed = true) (htarget : target.keyed = true)
    (hother : ∀ fields, target ≠ .record fields)
    (h : materializedSourceType source target = some predicted) {value : Value}
    (hv : source.Accepts value) :
    predicted.Fits (target.materializeMissingFields value) ∧
      target.Fits (target.materializeMissingFields value) := by
  have hsame : predicted = source ∧ source.isSubtypeOf target = true := by
    cases target <;> try exact absurd rfl (hother _)
    all_goals
      simp only [materializedSourceType, Option.ite_none_right_eq_some, Option.some.injEq] at h
      exact ⟨h.2.symm, h.1⟩
  have hvalue : target.materializeMissingFields value = value := by
    cases target <;> first | rfl | exact absurd rfl (hother _)
  rw [hsame.1, hvalue]
  exact ⟨fits_of_accepts hsource hv, fits_of_isSubtypeOf htarget hsame.2 hv⟩

/-- The two sides of one target field: the predicted field and the target field fit what
materialization leaves there. -/
theorem fieldPredicted_fits {source predicted : Option RecordField} {target : RecordField}
    (htarget : target.2.keyed = true) {value : Option Value}
    (hclosed : source = none → value = none)
    (hvalue : ∀ field, source = some field → FieldAccepts field value)
    (ih : ∀ field type value, source = some field →
      materializedSourceType field.2 target.2 = some type → field.2.Accepts value →
      type.Fits (target.2.materializeMissingFields value) ∧
        target.2.Fits (target.2.materializeMissingFields value))
    (h : fieldPredicted source target = some predicted) :
    (∀ field, predicted = some field → FieldFits field (fieldMaterialized target value)) ∧
      FieldFits target (fieldMaterialized target value) := by
  have hempty : ∀ value, implicitEmptyValue target.2 = some value → target.2.Fits value :=
    fun value hv => fits_of_accepts htarget (accepts_implicitEmptyValue htarget hv)
  cases source with
  | none =>
    rw [hclosed rfl]
    rcases fieldPredicted_none h with ⟨hr, hsome, rfl⟩ | ⟨hr, rfl⟩
    · obtain ⟨empty, he⟩ := Option.isSome_iff_exists.mp hsome
      have hm : fieldMaterialized target none = some empty := by simp [fieldMaterialized, hr, he]
      rw [hm]
      refine ⟨fun field hfield => ?_, hempty empty he⟩
      cases hfield
      exact hempty empty he
    · have hm : fieldMaterialized target none = none := by simp [fieldMaterialized, hr]
      rw [hm]
      exact ⟨(fun field hfield => by cases hfield), hr⟩
  | some source =>
    have ha := hvalue source rfl
    obtain ⟨type, htype, hcase⟩ := fieldPredicted_some h
    cases value with
    | some value =>
      obtain ⟨hpredicted, hfits⟩ := ih source type value rfl htype ha
      refine ⟨fun field hfield => ?_, hfits⟩
      rcases hcase with ⟨-, -, -, rfl⟩ | ⟨-, rfl⟩
      · cases hfield
        exact hfits
      · cases hfield
        exact hpredicted
    | none =>
      have hoptional : source.1 = false := ha
      rcases hcase with ⟨hr, -, hsome, rfl⟩ | ⟨hr, rfl⟩
      · obtain ⟨empty, he⟩ := Option.isSome_iff_exists.mp hsome
        have hm : fieldMaterialized target none = some empty := by simp [fieldMaterialized, hr, he]
        rw [hm]
        refine ⟨fun field hfield => ?_, hempty empty he⟩
        cases hfield
        exact hempty empty he
      · have ht : target.1 = false := by
          cases htr : target.1 with
          | false => rfl
          | true => rw [hr htr] at hoptional; cases hoptional
        have hm : fieldMaterialized target none = none := by simp [fieldMaterialized, ht]
        rw [hm]
        refine ⟨fun field hfield => ?_, ht⟩
        cases hfield
        exact hoptional

/-- The materialized value fits the predicted type and the target. -/
theorem materialized_fits {source target predicted : PayloadType} (hsource : source.keyed = true)
    (htarget : target.keyed = true) (h : materializedSourceType source target = some predicted)
    {value : Value} (hv : source.Accepts value) :
    predicted.Fits (target.materializeMissingFields value) ∧
      target.Fits (target.materializeMissingFields value) := by
  induction target using induct generalizing source predicted value with
  | record fields ih =>
    cases source <;> try cases h
    rename_i source
    rw [materializedSourceType, Option.map_eq_some_iff] at h
    obtain ⟨predicted, hpredicted, rfl⟩ := h
    obtain ⟨object, rfl, hfields, hkeys⟩ := accepts_record.mp hv
    rw [keyed_record] at hsource htarget
    obtain ⟨hspec, hother, hsorted⟩ := materializedRecordFields_spec htarget.1 hpredicted
    have hfield : ∀ f ∈ fields,
        (∀ field, OrdMap.get? predicted f.1 = some field →
          FieldFits field (OrdMap.get? (materializeFields fields object) f.1.asStr)) ∧
        FieldFits f.2 (OrdMap.get? (materializeFields fields object) f.1.asStr) := by
      intro f hf
      rw [get?_materializeFields htarget.1 hf]
      refine fieldPredicted_fits (htarget.2 f hf) (fun hnone => get?_source hkeys hnone)
        (fun field hsome => ?_) (fun field type value hsome htype ha => ?_) (hspec f hf)
      · exact hfields (f.1, field) (OrdMap.mem_of_get? hsome)
      · have hin : (f.1, field) ∈ source := OrdMap.mem_of_get? hsome
        exact ih f hf (hsource.2 _ hin) (htarget.2 f hf) htype ha
    rw [materializeMissingFields, fits_record (hsorted hsource.1), fits_record htarget.1]
    refine ⟨fun g hg => ?_, fun f hf => (hfield f hf).2⟩
    by_cases hdeclared : ∃ f ∈ fields, f.1 = g.1
    · obtain ⟨f, hf, hname⟩ := hdeclared
      rw [← hname]
      refine (hfield f hf).1 g.2 ?_
      rw [hname]
      exact OrdMap.get?_of_mem (hsorted hsource.1) hg
    · -- a field the target does not mention keeps its type and its value
      have hname : ∀ f ∈ fields, f.1 ≠ g.1 := fun f hf he => hdeclared ⟨f, hf, he⟩
      have hget : OrdMap.get? source g.1 = some g.2 := by
        rw [← hother g.1 hname]
        exact OrdMap.get?_of_mem (hsorted hsource.1) hg
      have hin : g ∈ source := OrdMap.mem_of_get? hget
      rw [get?_materializeFields_other fun f hf he => hname f hf (Identifier.asStr_inj.mp he)]
      have ha := hfields g hin
      revert ha
      cases OrdMap.get? object g.1.asStr with
      | none => exact id
      | some value => exact fun ha => fits_of_accepts (hsource.2 g hin) ha
  | null => exact materialized_fits_other hsource htarget (by simp) h hv
  | boolean => exact materialized_fits_other hsource htarget (by simp) h hv
  | integer => exact materialized_fits_other hsource htarget (by simp) h hv
  | number => exact materialized_fits_other hsource htarget (by simp) h hv
  | string => exact materialized_fits_other hsource htarget (by simp) h hv
  | enum values => exact materialized_fits_other hsource htarget (by simp) h hv
  | array items ih => exact materialized_fits_other hsource htarget (by simp) h hv

/-- **Materialization is sound.** When the prediction succeeds, the materialized value of every
value of the source fits the predicted type and the target, has grown only where the target
requires a missing field, and is left alone by a second pass. -/
theorem materialization_sound (source target predicted : PayloadType)
    (hsource : source.keyed = true) (htarget : target.keyed = true)
    (h : source.materializedSubtypeOf target = some predicted) (value : Value)
    (hkeyed : value.keyed = true) (hv : source.validateValue value = .ok ()) :
    predicted.validateValue
        (predicted.dropUndeclared (target.materializeMissingFields value)) = .ok () ∧
      target.validateValue
        (target.dropUndeclared (target.materializeMissingFields value)) = .ok () ∧
      Grown target value (target.materializeMissingFields value) ∧
      target.materializeMissingFields (target.materializeMissingFields value) =
        target.materializeMissingFields value := by
  rw [materializedSubtypeOf, Option.filter_eq_some_iff] at h
  have hfits := materialized_fits hsource htarget h.1 (validateValue_ok.mp hv)
  refine ⟨validateValue_ok.mpr hfits.1, validateValue_ok.mpr hfits.2, ?_, ?_⟩
  · exact grown_materialize htarget value
  · exact materialize_idempotent htarget hkeyed

namespace Sample

/-- A target that requires a nested string its source may lack. -/
def nested : PayloadType := recordOf true (recordOf true .string)

end Sample

open Sample in
/-- The optional record becomes required, and both levels are filled in. -/
theorem materialization_sound_nested :
    nested.materializeMissingFields (.object []) =
        .object [("a", .object [("a", .string "")])] ∧
      nested.validateValue
        (nested.dropUndeclared (nested.materializeMissingFields (.object []))) = .ok () :=
  ⟨by decide, (materialization_sound (recordOf false (recordOf false .string)) nested nested
    (by decide) (by decide) (by decide) (.object []) (by decide) (by decide)).2.1⟩

end PayloadType

end Zeroshot
