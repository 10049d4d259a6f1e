import Zeroshot.Lib.SortedMap
import Zeroshot.Protocol.Payload

set_option autoImplicit false

/-!
# The subtype relation of payload types

`PayloadType.isSubtypeOf` is reflexive. It is not transitive: a middle record type may forget a
field that the last type mentions again, and width subtyping then says nothing about the value the
source kept there. `agree source middle target` is the missing condition, and the two halves of a
chain compose exactly when it holds (`isSubtypeOf_compose`).
-/

namespace Zeroshot

theorem NonEmptyEnumSet.isSubset_iff {source target : NonEmptyEnumSet} :
    source.isSubset target = true ↔ ∀ label ∈ source.values, label ∈ target.values := by
  simp only [NonEmptyEnumSet.isSubset, List.all_eq_true, List.any_eq_true, beq_iff_eq]
  refine forall₂_congr fun label _ => ⟨?_, fun h => ⟨label, h, Std.ReflOrd.compare_self⟩⟩
  rintro ⟨other, hin, he⟩
  rwa [Std.LawfulEqOrd.eq_of_compare he]

namespace PayloadType

/-! ## Induction over payload types -/

/-- Induction over a payload type; a record comes with the hypothesis for each of its fields. -/
@[elab_as_elim]
theorem induct {P : PayloadType → Prop} (null : P .null) (boolean : P .boolean)
    (integer : P .integer) (number : P .number) (string : P .string)
    (record : ∀ fields : List (FieldName × Bool × PayloadType),
      (∀ f ∈ fields, P f.2.2) → P (.record fields))
    (array : ∀ items, P items → P (.array items)) (enum : ∀ values, P (.enum values))
    (type : PayloadType) : P type :=
  @PayloadType.rec P (fun fields => ∀ f ∈ fields, P f.2.2) (fun f => P f.2.2) (fun f => P f.2)
    null boolean integer number string record array enum
    (List.forall_mem_nil _)
    (fun _ _ hf hfs => List.forall_mem_cons.mpr ⟨hf, hfs⟩)
    (fun _ _ hf => hf) (fun _ _ hf => hf) type

/-! ## Keyed types -/

mutual

/-- The fields of every record of the type increase strictly, as in the ordered map of the
source. -/
def keyed : PayloadType → Bool
  | .record fields => decide (OrdMap.Sorted fields) && fieldsKeyed fields
  | .array items => keyed items
  | _ => true

def fieldsKeyed : List (FieldName × Bool × PayloadType) → Bool
  | [] => true
  | (_, _, type) :: fields => keyed type && fieldsKeyed fields

end

theorem fieldsKeyed_iff {fields : List (FieldName × Bool × PayloadType)} :
    fieldsKeyed fields = true ↔ ∀ f ∈ fields, f.2.2.keyed = true := by
  induction fields with
  | nil => simp [fieldsKeyed]
  | cons f fields ih =>
    obtain ⟨name, required, type⟩ := f
    simp [fieldsKeyed, ih]

theorem keyed_record {fields : List (FieldName × Bool × PayloadType)} :
    (record fields).keyed = true ↔
      OrdMap.Sorted fields ∧ ∀ f ∈ fields, f.2.2.keyed = true := by
  simp [keyed, fieldsKeyed_iff]

/-! ## Coverage of record fields -/

/-- What `is_subtype_of` asks of the source field a target field meets. -/
def fieldCovered (source : Option RecordField) (target : RecordField) : Bool :=
  match source with
  | some field => (!target.1 || field.1) && field.2.isSubtypeOf target.2
  | none => !target.1

theorem fieldsCovered_iff {source : OrdMap FieldName RecordField}
    {target : List (FieldName × Bool × PayloadType)} :
    fieldsCovered source target = true ↔
      ∀ f ∈ target, fieldCovered (OrdMap.get? source f.1) f.2 = true := by
  induction target with
  | nil => simp [fieldsCovered]
  | cons f target ih =>
    obtain ⟨name, required, type⟩ := f
    rw [List.forall_mem_cons, ← ih, fieldsCovered, Bool.and_eq_true]
    rfl

theorem fieldCovered_some {field target : RecordField} :
    fieldCovered (some field) target = true ↔
      (target.1 = true → field.1 = true) ∧ field.2.isSubtypeOf target.2 = true := by
  simp only [fieldCovered, Bool.and_eq_true, Bool.or_eq_true, Bool.not_eq_true']
  cases target.1 <;> cases field.1 <;> simp

theorem fieldCovered_none {target : RecordField} :
    fieldCovered none target = true ↔ target.1 = false := by
  simp [fieldCovered]

/-- A source field below a record type belongs to a record. -/
theorem record_of_isSubtypeOf {source : PayloadType}
    {target : List (FieldName × Bool × PayloadType)}
    (h : source.isSubtypeOf (.record target) = true) :
    ∃ fields, source = .record fields ∧ fieldsCovered fields target = true := by
  cases source <;> simp [isSubtypeOf] at h
  exact ⟨_, rfl, h⟩

theorem array_of_isSubtypeOf {source target : PayloadType}
    (h : source.isSubtypeOf (.array target) = true) :
    ∃ items, source = .array items ∧ items.isSubtypeOf target = true := by
  cases source <;> simp [isSubtypeOf] at h
  exact ⟨_, rfl, h⟩

/-! ## Reflexivity -/

theorem isSubtypeOf_refl {type : PayloadType} (h : type.keyed = true) :
    type.isSubtypeOf type = true := by
  induction type using induct with
  | null => rfl
  | boolean => rfl
  | integer => rfl
  | number => rfl
  | string => rfl
  | enum values =>
    rw [isSubtypeOf, NonEmptyEnumSet.isSubset_iff]
    exact fun _ hin => hin
  | array items ih => exact ih h
  | record fields ih =>
    rw [keyed_record] at h
    rw [isSubtypeOf, fieldsCovered_iff]
    intro f hf
    rw [OrdMap.get?_of_mem h.1 hf, fieldCovered_some]
    exact ⟨id, ih f hf (h.2 f hf)⟩

/-! ## Composition -/

mutual

/-- The fields `target` mentions fit what `source` keeps there, also where `middle` forgets
them. -/
def agree (source middle target : PayloadType) : Bool :=
  match source, middle, target with
  | .array source, .array middle, .array target => agree source middle target
  | .record source, .record middle, .record target => fieldsAgree source middle target
  | _, _, _ => true

def fieldsAgree (source middle : OrdMap FieldName RecordField) :
    List (FieldName × Bool × PayloadType) → Bool
  | [] => true
  | (name, _, type) :: target =>
    (match OrdMap.get? source name, OrdMap.get? middle name with
      | some field, some between => agree field.2 between.2 type
      | some field, none => field.2.isSubtypeOf type
      | none, _ => true) && fieldsAgree source middle target

end

/-- The condition `agree` puts on one field of the target. -/
def fieldAgrees (source middle : Option RecordField) (target : RecordField) : Bool :=
  match source, middle with
  | some field, some between => agree field.2 between.2 target.2
  | some field, none => field.2.isSubtypeOf target.2
  | none, _ => true

theorem fieldsAgree_iff {source middle : OrdMap FieldName RecordField}
    {target : List (FieldName × Bool × PayloadType)} :
    fieldsAgree source middle target = true ↔
      ∀ f ∈ target, fieldAgrees (OrdMap.get? source f.1) (OrdMap.get? middle f.1) f.2 = true := by
  induction target with
  | nil => simp [fieldsAgree]
  | cons f target ih =>
    obtain ⟨name, required, type⟩ := f
    rw [List.forall_mem_cons, ← ih, fieldsAgree, Bool.and_eq_true]
    rfl

/-- One field of the target, given the composition for the types of the fields. -/
theorem fieldCovered_compose {source middle : Option RecordField} {target : RecordField}
    (ih : ∀ source middle : PayloadType, source.isSubtypeOf middle = true →
      middle.isSubtypeOf target.2 = true →
      (source.isSubtypeOf target.2 = true ↔ agree source middle target.2 = true))
    (hsm : ∀ between, middle = some between → fieldCovered source between = true)
    (hmt : fieldCovered middle target = true) :
    fieldCovered source target = true ↔ fieldAgrees source middle target = true := by
  cases middle with
  | none =>
    rw [fieldCovered_none] at hmt
    cases source with
    | none => simp [fieldCovered, fieldAgrees, hmt]
    | some field => simp [fieldCovered, fieldAgrees, hmt]
  | some between =>
    have hs := hsm between rfl
    rw [fieldCovered_some] at hmt
    cases source with
    | none =>
      -- the middle field is optional, so the target field is optional too
      rw [fieldCovered_none] at hs
      have ht : target.1 = false := by
        cases h : target.1 with
        | false => rfl
        | true => rw [hmt.1 h] at hs; cases hs
      simp [fieldCovered, fieldAgrees, ht]
    | some field =>
      rw [fieldCovered_some] at hs
      rw [fieldCovered_some, fieldAgrees, ← ih field.2 between.2 hs.2 hmt.2]
      exact ⟨And.right, fun h => ⟨fun hr => hs.1 (hmt.1 hr), h⟩⟩

/-- Two steps of subtyping compose exactly when `agree` holds. -/
theorem isSubtypeOf_compose {source middle target : PayloadType}
    (hsm : source.isSubtypeOf middle = true) (hmt : middle.isSubtypeOf target = true) :
    source.isSubtypeOf target = true ↔ agree source middle target = true := by
  induction target using induct generalizing source middle with
  | null =>
    cases middle <;> simp [isSubtypeOf] at hmt
    cases source <;> simp_all [isSubtypeOf, agree]
  | boolean =>
    cases middle <;> simp [isSubtypeOf] at hmt
    cases source <;> simp_all [isSubtypeOf, agree]
  | integer =>
    cases middle <;> simp [isSubtypeOf] at hmt
    cases source <;> simp_all [isSubtypeOf, agree]
  | number =>
    cases middle <;> simp [isSubtypeOf] at hmt <;>
      cases source <;> simp_all [isSubtypeOf, agree]
  | string =>
    cases middle <;> simp [isSubtypeOf] at hmt
    cases source <;> simp_all [isSubtypeOf, agree]
  | enum values =>
    cases middle <;> simp [isSubtypeOf] at hmt
    cases source <;> simp [isSubtypeOf] at hsm
    simp only [isSubtypeOf, agree, iff_true]
    rw [NonEmptyEnumSet.isSubset_iff] at *
    exact fun label hl => hmt label (hsm label hl)
  | array items ih =>
    obtain ⟨middle, rfl, hmt⟩ := array_of_isSubtypeOf hmt
    obtain ⟨source, rfl, hsm⟩ := array_of_isSubtypeOf hsm
    exact ih hsm hmt
  | record fields ih =>
    obtain ⟨middle, rfl, hm⟩ := record_of_isSubtypeOf hmt
    obtain ⟨source, rfl, hs⟩ := record_of_isSubtypeOf hsm
    rw [fieldsCovered_iff] at hs hm
    rw [isSubtypeOf, agree, fieldsCovered_iff, fieldsAgree_iff]
    refine forall₂_congr fun f hf => ?_
    refine fieldCovered_compose (fun _ _ h₁ h₂ => ih f hf h₁ h₂) (fun between hb => ?_) (hm f hf)
    exact hs (f.1, between) (OrdMap.mem_of_get? hb)

/-! ## Chains -/

/-- Each type of the chain from `middle` on is below the next, and agrees on it with `source`. -/
def Linked (source : PayloadType) : PayloadType → List PayloadType → Prop
  | _, [] => True
  | middle, next :: rest =>
    middle.isSubtypeOf next = true ∧ agree source middle next = true ∧ Linked source next rest

theorem isSubtypeOf_last {source middle : PayloadType} {rest : List PayloadType}
    (h : source.isSubtypeOf middle = true) (hlinked : Linked source middle rest) :
    source.isSubtypeOf (rest.getLastD middle) = true := by
  induction rest generalizing middle with
  | nil => exact h
  | cons next rest ih =>
    obtain ⟨hnext, hagree, hrest⟩ := hlinked
    rw [List.getLastD_cons]
    exact ih ((isSubtypeOf_compose h hnext).mpr hagree) hrest

/-- **Subtyping up to forgotten fields.** The relation is reflexive, two steps of it compose
exactly when the ends agree on what the middle forgets, and a chain whose links agree with its
first type ends above that type. -/
theorem subtyping_composes (source : PayloadType) (hkeyed : source.keyed = true) :
    source.isSubtypeOf source = true ∧
      ∀ middle, source.isSubtypeOf middle = true →
        (∀ target, middle.isSubtypeOf target = true →
          (source.isSubtypeOf target = true ↔ agree source middle target = true)) ∧
        ∀ rest, Linked source middle rest → source.isSubtypeOf (rest.getLastD middle) = true := by
  refine ⟨isSubtypeOf_refl hkeyed, fun middle h => ⟨fun target ht => ?_, fun rest hrest => ?_⟩⟩
  · exact isSubtypeOf_compose h ht
  · exact isSubtypeOf_last h hrest

namespace Sample

theorem validateIdentifier_a : validateIdentifier "a" = true := by decide

/-- The record with the one field `a`. -/
def recordOf (required : Bool) (type : PayloadType) : PayloadType :=
  .record [(⟨"a", validateIdentifier_a⟩, required, type)]

end Sample

open Sample in
/-- The middle type forgets `a`, and the last one wants an integer there. -/
theorem isSubtypeOf_not_transitive :
    ((recordOf true .string).keyed ∧ (PayloadType.record []).keyed ∧
      (recordOf false .integer).keyed) ∧
    (recordOf true .string).isSubtypeOf (.record []) = true ∧
    (PayloadType.record []).isSubtypeOf (recordOf false .integer) = true ∧
    (recordOf true .string).isSubtypeOf (recordOf false .integer) = false := by
  decide

open Sample in
/-- A chain whose middle type forgets `a` and whose ends agree on it. -/
theorem subtyping_composes_integer :
    (recordOf true .integer).keyed = true ∧
      (recordOf true .integer).isSubtypeOf (recordOf false .number) = true := by
  have h := subtyping_composes (recordOf true .integer) (by decide)
  refine ⟨by decide, ?_⟩
  have hlinked : Linked (recordOf true .integer) (.record []) [recordOf false .number] :=
    ⟨by decide, by decide, trivial⟩
  exact (h.2 (.record []) (by decide)).2 [recordOf false .number] hlinked

end PayloadType

end Zeroshot
