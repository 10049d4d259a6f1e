import Zeroshot.Protocol.Subtyping

set_option autoImplicit false

/-!
# Validation of values against payload types

`PayloadType.validateValue` reports the path and the text of the first failure; whether it fails
does not depend on the path it starts from, and `Accepts` is that reading of it. `dropUndeclared`
removes from a value the record fields its type does not declare. The main result,
`subtype_values_accepted`, is that a value of a subtype is a value of the supertype once those
fields are dropped, at every place the supertype declares.
-/

namespace Zeroshot

namespace PayloadType

/-! ## Acceptance -/

/-- Validation succeeds, from whatever path it starts. -/
def Accepts (type : PayloadType) (value : Value) : Prop :=
  ∀ path, type.validateValueAt value path = .ok ()

theorem validateItems_ok {validate : Value → String → Except PayloadValueError Unit}
    {path : String} {index : Nat} {values : List Value}
    (h : validateItems validate path index values = .ok ()) :
    ∀ value ∈ values, ∃ path', validate value path' = .ok () := by
  induction values generalizing index with
  | nil => exact List.forall_mem_nil _
  | cons value values ih =>
    rw [validateItems] at h
    cases hv : validate value (path ++ "[" ++ toString index ++ "]") with
    | error e => rw [hv] at h; cases h
    | ok u =>
      rw [hv] at h
      exact List.forall_mem_cons.mpr ⟨⟨_, hv⟩, ih h⟩

theorem validateItems_of_ok {validate : Value → String → Except PayloadValueError Unit}
    {path : String} {index : Nat} {values : List Value}
    (h : ∀ value ∈ values, ∀ path', validate value path' = .ok ()) :
    validateItems validate path index values = .ok () := by
  induction values generalizing index with
  | nil => rfl
  | cons value values ih =>
    rw [List.forall_mem_cons] at h
    rw [validateItems, h.1]
    exact ih h.2

/-- What validation asks of the value a declared field meets. -/
def FieldAccepts (field : RecordField) (value : Option Value) : Prop :=
  match value with
  | some value => field.2.Accepts value
  | none => field.1 = false

/-- The field loop, when every field's check can be moved to any path. -/
theorem validateFields_ok {fields : List (FieldName × Bool × PayloadType)}
    (hpath : ∀ f ∈ fields, ∀ value path, f.2.2.validateValueAt value path = .ok () →
      f.2.2.Accepts value)
    {object : OrdMap String Value} {path : String}
    (h : validateFields fields object path = .ok ()) :
    ∀ f ∈ fields, FieldAccepts f.2 (OrdMap.get? object f.1.asStr) := by
  induction fields with
  | nil => exact List.forall_mem_nil _
  | cons f fields ih =>
    obtain ⟨name, required, type⟩ := f
    rw [List.forall_mem_cons] at hpath
    rw [validateFields] at h
    rw [List.forall_mem_cons]
    cases hv : OrdMap.get? object name.asStr with
    | none =>
      cases required with
      | true => rw [hv] at h; cases h
      | false =>
        rw [hv] at h
        exact ⟨rfl, ih hpath.2 h⟩
    | some value =>
      rw [hv] at h
      cases hw : type.validateValueAt value (path ++ "." ++ name.asStr) with
      | error e => simp only [hw] at h; cases h
      | ok u =>
        simp only [hw] at h
        exact ⟨hpath.1 value _ hw, ih hpath.2 h⟩

theorem validateFields_of_ok {fields : List (FieldName × Bool × PayloadType)}
    {object : OrdMap String Value} {path : String}
    (h : ∀ f ∈ fields, FieldAccepts f.2 (OrdMap.get? object f.1.asStr)) :
    validateFields fields object path = .ok () := by
  induction fields with
  | nil => rfl
  | cons f fields ih =>
    obtain ⟨name, required, type⟩ := f
    rw [List.forall_mem_cons] at h
    rw [validateFields]
    cases hv : OrdMap.get? object name.asStr with
    | none =>
      rw [hv] at h
      have hr : required = false := h.1
      subst hr
      exact ih h.2
    | some value =>
      rw [hv] at h
      have ha : type.Accepts value := h.1
      simp only [ha (path ++ "." ++ name.asStr)]
      exact ih h.2

theorem undeclaredKey_eq_none {fields : List (FieldName × Bool × PayloadType)}
    {object : OrdMap String Value} :
    undeclaredKey fields object = none ↔
      ∀ e ∈ object, ∃ f ∈ fields, f.1.asStr = e.1 := by
  rw [undeclaredKey, List.find?_eq_none, OrdMap.keys, List.forall_mem_map]
  refine forall₂_congr fun e _ => ?_
  rw [Bool.not_eq_true, Bool.not_eq_false', List.any_eq_true]
  simp only [beq_iff_eq]

/-- A record accepts an object whose fields it accepts and that has no other key. -/
theorem accepts_record_of {fields : List (FieldName × Bool × PayloadType)}
    {object : OrdMap String Value}
    (hfields : ∀ f ∈ fields, FieldAccepts f.2 (OrdMap.get? object f.1.asStr))
    (hkeys : ∀ e ∈ object, ∃ f ∈ fields, f.1.asStr = e.1) :
    (record fields).Accepts (.object object) := by
  intro path
  rw [validateValueAt]
  simp only [Value.asObject, validateFields_of_ok hfields, undeclaredKey_eq_none.mpr hkeys]
  rfl

theorem accepts_array_of {items : PayloadType} {values : List Value}
    (h : ∀ value ∈ values, items.Accepts value) : (array items).Accepts (.array values) := by
  intro path
  rw [validateValueAt]
  exact validateItems_of_ok h

/-- A successful record check, when every field's check can be moved to any path. -/
theorem record_ok {fields : List (FieldName × Bool × PayloadType)}
    (hpath : ∀ f ∈ fields, ∀ value path, f.2.2.validateValueAt value path = .ok () →
      f.2.2.Accepts value)
    {value : Value} {path : String} (h : (record fields).validateValueAt value path = .ok ()) :
    ∃ object, value = .object object ∧
      (∀ f ∈ fields, FieldAccepts f.2 (OrdMap.get? object f.1.asStr)) ∧
      ∀ e ∈ object, ∃ f ∈ fields, f.1.asStr = e.1 := by
  rw [validateValueAt] at h
  cases value <;> try cases h
  rename_i object
  refine ⟨object, rfl, ?_⟩
  simp only [Value.asObject] at h
  cases hf : validateFields fields object path with
  | error e => rw [hf] at h; cases h
  | ok u =>
    rw [hf] at h
    refine ⟨validateFields_ok hpath hf, undeclaredKey_eq_none.mp ?_⟩
    cases hk : undeclaredKey fields object with
    | none => rfl
    | some key =>
      simp [hk, bind, Except.bind] at h

theorem expectType_ok {isMatch : Bool} {path expected : String} :
    expectType isMatch path expected = .ok () ↔ isMatch = true := by
  cases isMatch <;> simp [expectType]

theorem validateEnum_ok {values : NonEmptyEnumSet} {value : Value} {path : String} :
    validateEnum values value path = .ok () ↔
      ∃ label, value = .string label ∧ values.contains label = true := by
  cases value <;> simp [validateEnum, Value.asStr]

/-- Whether a check succeeds does not depend on the path it starts from. -/
theorem accepts_of_validateValueAt {type : PayloadType} {value : Value} {path : String}
    (h : type.validateValueAt value path = .ok ()) : type.Accepts value := by
  induction type using induct generalizing value path with
  | null => exact fun _ => expectType_ok.mpr (expectType_ok.mp h)
  | boolean => exact fun _ => expectType_ok.mpr (expectType_ok.mp h)
  | integer => exact fun _ => expectType_ok.mpr (expectType_ok.mp h)
  | number => exact fun _ => expectType_ok.mpr (expectType_ok.mp h)
  | string => exact fun _ => expectType_ok.mpr (expectType_ok.mp h)
  | enum values => exact fun _ => validateEnum_ok.mpr (validateEnum_ok.mp h)
  | array items ih =>
    rw [validateValueAt] at h
    cases value <;> try cases h
    refine accepts_array_of fun value hin => ?_
    obtain ⟨path', hv⟩ := validateItems_ok h value hin
    exact ih hv
  | record fields ih =>
    obtain ⟨object, rfl, hfields, hkeys⟩ := record_ok (fun f hf _ _ => ih f hf) h
    exact accepts_record_of hfields hkeys

theorem validateValue_ok {type : PayloadType} {value : Value} :
    type.validateValue value = .ok () ↔ type.Accepts value :=
  ⟨accepts_of_validateValueAt, fun h => h "$"⟩

theorem accepts_record {fields : List (FieldName × Bool × PayloadType)} {value : Value} :
    (record fields).Accepts value ↔ ∃ object, value = .object object ∧
      (∀ f ∈ fields, FieldAccepts f.2 (OrdMap.get? object f.1.asStr)) ∧
      ∀ e ∈ object, ∃ f ∈ fields, f.1.asStr = e.1 := by
  constructor
  · exact fun h => record_ok (fun _ _ _ _ => accepts_of_validateValueAt) (h "$")
  · rintro ⟨object, rfl, hfields, hkeys⟩
    exact accepts_record_of hfields hkeys

theorem accepts_array {items : PayloadType} {value : Value} :
    (array items).Accepts value ↔
      ∃ values, value = .array values ∧ ∀ value ∈ values, items.Accepts value := by
  constructor
  · intro h
    have h' := h "$"
    rw [validateValueAt] at h'
    cases value <;> try cases h'
    refine ⟨_, rfl, fun value hin => ?_⟩
    obtain ⟨path, hv⟩ := validateItems_ok h' value hin
    exact accepts_of_validateValueAt hv
  · rintro ⟨values, rfl, h⟩
    exact accepts_array_of h

theorem accepts_enum {values : NonEmptyEnumSet} {value : Value} :
    (enum values).Accepts value ↔
      ∃ label, value = .string label ∧ values.contains label = true := by
  rw [← validateEnum_ok, ← validateValue_ok]
  rfl

/-! ## Dropping undeclared fields -/

mutual

/-- The value without the record fields the type does not declare, at every depth. -/
def dropUndeclared (type : PayloadType) (value : Value) : Value :=
  match type with
  | .record fields =>
    match value with
    | .object object => .object (dropFields fields object)
    | value => value
  | .array items =>
    match value with
    | .array values => .array (values.map (dropUndeclared items))
    | value => value
  | _ => value

/-- The declared fields of the object. -/
def dropFields (fields : List (FieldName × Bool × PayloadType)) (object : OrdMap String Value) :
    OrdMap String Value :=
  match fields with
  | [] => []
  | (name, _, type) :: fields =>
    match OrdMap.get? object name.asStr with
    | some value =>
      OrdMap.insert name.asStr (dropUndeclared type value) (dropFields fields object)
    | none => dropFields fields object

end

theorem mem_dropFields {fields : List (FieldName × Bool × PayloadType)}
    {object : OrdMap String Value} {e : String × Value} (he : e ∈ dropFields fields object) :
    ∃ f ∈ fields, f.1.asStr = e.1 := by
  induction fields with
  | nil => cases he
  | cons g fields ih =>
    obtain ⟨name, required, type⟩ := g
    have hrest : e ∈ dropFields fields object →
        ∃ f ∈ (name, required, type) :: fields, f.1.asStr = e.1 := by
      intro h
      obtain ⟨f, hf, hname⟩ := ih h
      exact ⟨f, List.mem_cons_of_mem _ hf, hname⟩
    rw [dropFields] at he
    cases hv : OrdMap.get? object name.asStr with
    | none =>
      rw [hv] at he
      exact hrest he
    | some value =>
      rw [hv] at he
      rcases OrdMap.mem_insert_imp he with rfl | h
      · exact ⟨_, List.mem_cons_self, rfl⟩
      · exact hrest h

theorem get?_dropFields_none {fields : List (FieldName × Bool × PayloadType)}
    {object : OrdMap String Value} {key : String} (h : ∀ f ∈ fields, f.1.asStr ≠ key) :
    OrdMap.get? (dropFields fields object) key = none := by
  rw [OrdMap.get?_eq_none]
  intro e he hkey
  obtain ⟨f, hf, hname⟩ := mem_dropFields he
  exact h f hf (hname.trans hkey)

/-- The first field of a sorted list is named by none of the others. -/
theorem head_ne_of_sorted {f g : FieldName × Bool × PayloadType}
    {fields : List (FieldName × Bool × PayloadType)} (h : OrdMap.Sorted (f :: fields))
    (hg : g ∈ fields) : g.1 ≠ f.1 := by
  intro he
  have hlt := (OrdMap.sorted_cons.mp h).1 g hg
  rw [he, Std.ReflOrd.compare_self] at hlt
  cases hlt

/-- A declared field keeps its value, less what its own type does not declare. -/
theorem get?_dropFields {fields : List (FieldName × Bool × PayloadType)}
    (hsorted : OrdMap.Sorted fields) {object : OrdMap String Value}
    {f : FieldName × Bool × PayloadType} (hf : f ∈ fields) :
    OrdMap.get? (dropFields fields object) f.1.asStr =
      (OrdMap.get? object f.1.asStr).map f.2.2.dropUndeclared := by
  induction fields with
  | nil => cases hf
  | cons g fields ih =>
    have hne : ∀ f ∈ fields, f.1.asStr ≠ g.1.asStr := fun f hf h =>
      head_ne_of_sorted hsorted hf (Identifier.asStr_inj.mp h)
    have hrest := (OrdMap.sorted_cons.mp hsorted).2
    obtain ⟨name, required, type⟩ := g
    rw [dropFields]
    rcases List.mem_cons.mp hf with rfl | hin
    · cases hv : OrdMap.get? object name.asStr with
      | none => exact get?_dropFields_none hne
      | some value => exact OrdMap.get?_insert_self _ _ _
    · rw [← ih hrest hin]
      cases hv : OrdMap.get? object name.asStr with
      | none => rfl
      | some value => exact OrdMap.get?_insert_ne (hne f hin) _ _

/-! ## Values of a subtype -/

/-- The value is a value of the type once undeclared fields are dropped. -/
def Fits (type : PayloadType) (value : Value) : Prop := type.Accepts (type.dropUndeclared value)

/-- What `Fits` asks of the value a declared field meets. -/
def FieldFits (field : RecordField) (value : Option Value) : Prop :=
  match value with
  | some value => field.2.Fits value
  | none => field.1 = false

theorem fits_record {fields : List (FieldName × Bool × PayloadType)}
    (hsorted : OrdMap.Sorted fields) {object : OrdMap String Value} :
    (record fields).Fits (.object object) ↔
      ∀ f ∈ fields, FieldFits f.2 (OrdMap.get? object f.1.asStr) := by
  have hdrop : (record fields).dropUndeclared (.object object) =
      .object (dropFields fields object) := rfl
  rw [Fits, hdrop, accepts_record]
  have hfield : ∀ f ∈ fields, FieldAccepts f.2 (OrdMap.get? (dropFields fields object) f.1.asStr) ↔
      FieldFits f.2 (OrdMap.get? object f.1.asStr) := by
    intro f hf
    rw [get?_dropFields hsorted hf]
    cases OrdMap.get? object f.1.asStr <;> exact Iff.rfl
  constructor
  · rintro ⟨object', he, hfields, -⟩ f hf
    cases he
    exact (hfield f hf).mp (hfields f hf)
  · exact fun h => ⟨_, rfl, fun f hf => (hfield f hf).mpr (h f hf), fun e he => mem_dropFields he⟩

theorem fits_array {items : PayloadType} {values : List Value} :
    (array items).Fits (.array values) ↔ ∀ value ∈ values, items.Fits value := by
  have hdrop : (array items).dropUndeclared (.array values) =
      .array (values.map items.dropUndeclared) := rfl
  rw [Fits, hdrop, accepts_array]
  constructor
  · rintro ⟨values', he, h⟩ value hin
    cases he
    exact h _ (List.mem_map_of_mem hin)
  · exact fun h => ⟨_, rfl, List.forall_mem_map.mpr h⟩

/-- What a source record accepts at a field of the target, by the source field there. -/
theorem get?_source {source : List (FieldName × Bool × PayloadType)}
    {object : OrdMap String Value} (hkeys : ∀ e ∈ object, ∃ f ∈ source, f.1.asStr = e.1)
    {name : FieldName} (h : OrdMap.get? source name = none) :
    OrdMap.get? object name.asStr = none := by
  rw [OrdMap.get?_eq_none] at *
  intro e he hkey
  obtain ⟨f, hf, hname⟩ := hkeys e he
  exact h f hf (Identifier.asStr_inj.mp (hname.trans hkey))

/-- A value of a subtype fits the supertype. -/
theorem fits_of_isSubtypeOf {source target : PayloadType} (hkeyed : target.keyed = true)
    (h : source.isSubtypeOf target = true) {value : Value} (hv : source.Accepts value) :
    target.Fits value := by
  induction target using induct generalizing source value with
  | null =>
    cases source <;> simp [isSubtypeOf] at h
    exact hv
  | boolean =>
    cases source <;> simp [isSubtypeOf] at h
    exact hv
  | integer =>
    cases source <;> simp [isSubtypeOf] at h
    exact hv
  | number =>
    cases source <;> simp [isSubtypeOf] at h
    · have hint : value.isJsonInteger = true := expectType_ok.mp (hv "$")
      refine fun _ => expectType_ok.mpr ?_
      cases value <;> simp [Value.isJsonInteger] at hint
      rfl
    · exact hv
  | string =>
    cases source <;> simp [isSubtypeOf] at h
    exact hv
  | enum values =>
    cases source <;> simp [isSubtypeOf] at h
    rename_i labels
    obtain ⟨label, rfl, hlabel⟩ := accepts_enum.mp hv
    refine accepts_enum.mpr ⟨label, rfl, ?_⟩
    rw [NonEmptyEnumSet.isSubset_iff] at h
    rw [NonEmptyEnumSet.contains, List.any_eq_true] at *
    obtain ⟨known, hin, he⟩ := hlabel
    exact ⟨known, h known hin, he⟩
  | array items ih =>
    obtain ⟨source, rfl, hsub⟩ := array_of_isSubtypeOf h
    obtain ⟨values, rfl, hvalues⟩ := accepts_array.mp hv
    rw [fits_array]
    exact fun value hin => ih hkeyed hsub (hvalues value hin)
  | record fields ih =>
    obtain ⟨source, rfl, hcovered⟩ := record_of_isSubtypeOf h
    obtain ⟨object, rfl, hfields, hkeys⟩ := accepts_record.mp hv
    rw [keyed_record] at hkeyed
    rw [fieldsCovered_iff] at hcovered
    rw [fits_record hkeyed.1]
    intro f hf
    have hc := hcovered f hf
    cases hs : OrdMap.get? source f.1 with
    | none =>
      rw [hs, fieldCovered_none] at hc
      rw [get?_source hkeys hs]
      exact hc
    | some field =>
      rw [hs, fieldCovered_some] at hc
      have ha := hfields (f.1, field) (OrdMap.mem_of_get? hs)
      cases hw : OrdMap.get? object f.1.asStr with
      | some value =>
        rw [hw] at ha
        exact ih f hf (hkeyed.2 f hf) hc.2 ha
      | none =>
        rw [hw] at ha
        have hoptional : field.1 = false := ha
        cases hr : f.2.1 with
        | false => exact hr
        | true => rw [hc.1 hr] at hoptional; cases hoptional

/-- The places of a value that a type declares: the value itself, the declared fields of an
object and the items of an array, at every depth, each with the type declared there. -/
inductive Declares : PayloadType → Value → PayloadType → Value → Prop
  | here (type : PayloadType) (value : Value) : Declares type value type value
  | field {fields : List (FieldName × Bool × PayloadType)} {object : OrdMap String Value}
      {f : FieldName × Bool × PayloadType} {value below : Value} {type : PayloadType}
      (declared : f ∈ fields) (present : OrdMap.get? object f.1.asStr = some value)
      (rest : Declares f.2.2 value type below) :
      Declares (.record fields) (.object object) type below
  | item {items type : PayloadType} {values : List Value} {value below : Value}
      (present : value ∈ values) (rest : Declares items value type below) :
      Declares (.array items) (.array values) type below

/-- What fits a type fits it at every declared place. -/
theorem Declares.fits {type below : PayloadType} {value part : Value}
    (hplace : Declares type value below part) (hkeyed : type.keyed = true)
    (hfits : type.Fits value) : below.Fits part := by
  induction hplace with
  | here => exact hfits
  | field declared present rest ih =>
    rw [keyed_record] at hkeyed
    have hf := (fits_record hkeyed.1).mp hfits _ declared
    rw [present] at hf
    exact ih (hkeyed.2 _ declared) hf
  | item present rest ih => exact ih hkeyed (fits_array.mp hfits _ present)

/-- **Subtyping is sound for values.** A value of a subtype, less the fields the supertype does not
declare, is a value of the supertype; the same holds at each place the supertype declares. -/
theorem subtype_values_accepted (source target : PayloadType) (hkeyed : target.keyed = true)
    (h : source.isSubtypeOf target = true) (value : Value)
    (hv : source.validateValue value = .ok ()) :
    target.validateValue (target.dropUndeclared value) = .ok () ∧
      ∀ type part, Declares target value type part →
        type.validateValue (type.dropUndeclared part) = .ok () := by
  have hfits : target.Fits value := fits_of_isSubtypeOf hkeyed h (validateValue_ok.mp hv)
  refine ⟨validateValue_ok.mpr hfits, fun type part hplace => ?_⟩
  exact validateValue_ok.mpr (hplace.fits hkeyed hfits)

namespace Sample

theorem validateIdentifier_b : validateIdentifier "b" = true := by decide

/-- A record with one more field than `recordOf`. -/
def wide : PayloadType :=
  .record [(⟨"a", validateIdentifier_a⟩, true, .integer),
    (⟨"b", validateIdentifier_b⟩, true, .null)]

def wideValue : Value := .object [("a", .number (.float 2)), ("b", .null)]

end Sample

open Sample in
/-- An integral float next to a field the supertype does not declare. -/
theorem subtype_values_accepted_float :
    wide.validateValue wideValue = .ok () ∧
      (recordOf false .number).validateValue
        ((recordOf false .number).dropUndeclared wideValue) = .ok () :=
  ⟨by decide, (subtype_values_accepted wide (recordOf false .number) (by decide) (by decide)
    wideValue (by decide)).1⟩

end PayloadType

end Zeroshot
