import Mathlib.Algebra.GroupWithZero.Nat
import Mathlib.Data.List.Basic
import Mathlib.Data.Nat.Basic

set_option autoImplicit false

/-!
# Identifiers, field paths and bounded integers

The validated scalars of the graph contract. Node names, field names and enum labels share one
grammar, so they are one family `Identifier kind`; each value carries the proof that it passed
`validateIdentifier`. Identifiers are ordered by their bytes.
-/

namespace Zeroshot

/-- `MAX_IDENTIFIER_LENGTH`. -/
def maxIdentifierLength : Nat := 128

/-- `MAX_PATH_SEGMENTS`. -/
def maxPathSegments : Nat := 64

/-- `MAX_COLLECTION_ITEMS`. -/
def maxCollectionItems : Nat := 4096

/-- `MAX_SAFE_GENERATION`, the largest integer a double represents exactly with all below it. -/
def maxSafeGeneration : Nat := 9007199254740991

/-! ## Identifiers -/

/-- The three identifier types of the contract. -/
inductive IdentifierKind
  | nodeName
  | fieldName
  | enumLabel
  deriving DecidableEq, Repr

def identifierStart (c : Char) : Bool := c.isAlpha || c == '_'

def identifierRest (c : Char) : Bool := c.isAlphanum || c == '_' || c == '-' || c == '.'

/-- `validate_identifier`: at most 128 bytes, a letter or underscore first, then letters, digits
and `_`, `-`, `.`. -/
def validateIdentifier (value : String) : Bool :=
  value.utf8ByteSize ≤ maxIdentifierLength &&
    match value.toList with
    | [] => false
    | first :: rest => identifierStart first && rest.all identifierRest

/-- A validated identifier. -/
structure Identifier (kind : IdentifierKind) where
  asStr : String
  valid : validateIdentifier asStr = true
  deriving DecidableEq, Repr

abbrev NodeName := Identifier .nodeName

abbrev FieldName := Identifier .fieldName

abbrev EnumLabel := Identifier .enumLabel

theorem Identifier.asStr_inj {kind : IdentifierKind} {a b : Identifier kind} :
    a.asStr = b.asStr ↔ a = b := by
  cases a
  cases b
  simp

/-- Lexicographic order of byte strings. -/
def compareBytes : List UInt8 → List UInt8 → Ordering
  | [], [] => .eq
  | [], _ :: _ => .lt
  | _ :: _, [] => .gt
  | a :: as, b :: bs =>
    bif Nat.blt a.toNat b.toNat then .lt
    else bif Nat.blt b.toNat a.toNat then .gt
    else compareBytes as bs

theorem compareBytes_self (as : List UInt8) : compareBytes as as = .eq := by
  induction as with
  | nil => rfl
  | cons a as ih =>
    have h : Nat.blt a.toNat a.toNat = false := by
      rw [Bool.eq_false_iff, ne_eq, Nat.blt_eq]
      exact Nat.lt_irrefl _
    simp only [compareBytes, h, cond_false]
    exact ih

theorem eq_of_compareBytes {as bs : List UInt8} (h : compareBytes as bs = .eq) : as = bs := by
  induction as generalizing bs with
  | nil => cases bs <;> simp_all [compareBytes]
  | cons a as ih =>
    cases bs with
    | nil => simp [compareBytes] at h
    | cons b bs =>
      cases hab : Nat.blt a.toNat b.toNat <;> cases hba : Nat.blt b.toNat a.toNat <;>
        simp only [compareBytes, hab, hba, cond_true, cond_false, reduceCtorEq] at h
      rw [Bool.eq_false_iff, ne_eq, Nat.blt_eq] at hab hba
      rw [ih h, UInt8.toNat_inj.mp (by omega : a.toNat = b.toNat)]

instance (kind : IdentifierKind) : Ord (Identifier kind) where
  compare a b := compareBytes a.asStr.toByteArray.data.toList b.asStr.toByteArray.data.toList

instance (kind : IdentifierKind) : Std.LawfulEqOrd (Identifier kind) where
  compare_self := compareBytes_self _
  eq_of_compare {a b} h := by
    have hbytes : a.asStr.toByteArray = b.asStr.toByteArray :=
      ByteArray.ext (Array.toList_inj.mp (eq_of_compareBytes h))
    cases a
    cases b
    cases String.toByteArray_inj.mp hbytes
    rfl

theorem compareBytes_eq_compare (as bs : List UInt8) :
    compareBytes as bs = compare (as.map UInt8.toNat) (bs.map UInt8.toNat) := by
  induction as generalizing bs with
  | nil => cases bs <;> simp [compareBytes]
  | cons a as ih =>
    cases bs with
    | nil => simp [compareBytes]
    | cons b bs =>
      rw [compareBytes, List.map_cons, List.map_cons, List.compare_cons_cons, ← ih]
      rcases Nat.lt_trichotomy a.toNat b.toNat with h | h | h
      · rw [Nat.blt_eq.mpr h, Nat.compare_eq_lt.mpr h]
        rfl
      · rw [h, Nat.compare_eq_eq.mpr rfl]
        have hb : Nat.blt b.toNat b.toNat = false := by
          rw [Bool.eq_false_iff, ne_eq, Nat.blt_eq]
          exact Nat.lt_irrefl _
        rw [hb]
        rfl
      · have hb : Nat.blt a.toNat b.toNat = false := by
          rw [Bool.eq_false_iff, ne_eq, Nat.blt_eq]
          exact Nat.lt_asymm h
        rw [hb, Nat.blt_eq.mpr h, Nat.compare_eq_gt.mpr h]
        rfl

/-- The bytes an identifier is ordered by. -/
def Identifier.bytes {kind : IdentifierKind} (identifier : Identifier kind) : List Nat :=
  identifier.asStr.toByteArray.data.toList.map UInt8.toNat

theorem Identifier.compare_eq {kind : IdentifierKind} (a b : Identifier kind) :
    compare a b = compare a.bytes b.bytes := compareBytes_eq_compare _ _

instance (kind : IdentifierKind) : Std.TransOrd (Identifier kind) where
  eq_swap {a b} := by
    rw [Identifier.compare_eq, Identifier.compare_eq]
    exact Std.OrientedCmp.eq_swap
  isLE_trans {a b c} hab hbc := by
    rw [Identifier.compare_eq] at *
    exact Std.TransCmp.isLE_trans hab hbc

/-! ## Field paths -/

/-- A path into a record: one to 64 field names. -/
structure FieldPath where
  segments : List FieldName
  nonEmpty : segments ≠ []
  short : segments.length ≤ maxPathSegments
  deriving DecidableEq, Repr

instance : Ord FieldPath where
  compare a b := compare a.segments b.segments

instance : Std.LawfulEqOrd FieldPath where
  compare_self := Std.ReflOrd.compare_self (a := (_ : List FieldName))
  eq_of_compare {a b} h := by
    cases a
    cases b
    cases Std.LawfulEqOrd.eq_of_compare (α := List FieldName) h
    rfl

/-- `path_contains`: `child` is `parent` or lies below it. -/
def FieldPath.contains (parent child : FieldPath) : Bool :=
  parent.segments.isPrefixOf child.segments

/-! ## Positive integers and label sets -/

/-- An integer between one and `maxSafeGeneration`. -/
structure PositiveInteger where
  get : Nat
  positive : 0 < get
  safe : get ≤ maxSafeGeneration
  deriving DecidableEq, Repr

theorem PositiveInteger.eq_of_get {a b : PositiveInteger} (h : a.get = b.get) : a = b := by
  cases a
  cases b
  cases h
  rfl

/-- `PositiveInteger::new`. -/
def PositiveInteger.new (value : Nat) : Option PositiveInteger :=
  if h : 0 < value ∧ value ≤ maxSafeGeneration then some ⟨value, h.1, h.2⟩ else none

def PositiveInteger.one : PositiveInteger := ⟨1, by decide, by decide⟩

/-- A non-empty set of labels, kept in increasing order. -/
structure NonEmptyEnumSet where
  values : List EnumLabel
  nonEmpty : values ≠ []
  bounded : values.length ≤ maxCollectionItems
  increasing : values.Pairwise fun a b => compare a b = .lt
  deriving DecidableEq, Repr

def NonEmptyEnumSet.contains (labels : NonEmptyEnumSet) (label : String) : Bool :=
  labels.values.any fun value => value.asStr == label

/-- `NonEmptyEnumSet::is_subset`. -/
def NonEmptyEnumSet.isSubset (source target : NonEmptyEnumSet) : Bool :=
  source.values.all fun value => target.values.any fun other => compare value other == .eq

end Zeroshot
