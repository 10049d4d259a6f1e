import Mathlib.Data.List.Sort
import Zeroshot.Protocol.Graph

set_option autoImplicit false

/-!
# Graph diagnostics

Codes, locations and the canonical order of what the verifier reports. Every diagnostic of the
verifier has severity `error`, so the severity is left out.
-/

namespace Zeroshot

inductive GraphDiagnosticCode
  | schemaSafety
  | reachability
  | choiceExhaustiveness
  | loopExitSatisfiability
  | missingBound
  | writeConflict
  | ceilingExceeded
  | cyclicReference
  | undefinedRead
  | invalidGraphShape
  deriving DecidableEq, Repr

/-- `diagnostic_code_rank`. -/
def GraphDiagnosticCode.rank : GraphDiagnosticCode → Nat
  | schemaSafety => 0
  | reachability => 1
  | choiceExhaustiveness => 2
  | loopExitSatisfiability => 3
  | missingBound => 4
  | writeConflict => 5
  | ceilingExceeded => 6
  | cyclicReference => 7
  | undefinedRead => 8
  | invalidGraphShape => 9

inductive DiagnosticPathSegment
  | field (name : FieldName)
  | index (value : Nat)
  | node (name : NodeName)
  deriving DecidableEq, Repr

abbrev DiagnosticPath := List DiagnosticPathSegment

structure GraphDiagnostic where
  code : GraphDiagnosticCode
  message : String
  path : DiagnosticPath
  relatedNodes : List NodeName
  deriving DecidableEq, Repr

/-! ## Paths -/

/-- `Identifier::new`. -/
def Identifier.new (kind : IdentifierKind) (value : String) : Option (Identifier kind) :=
  if h : validateIdentifier value = true then some ⟨value, h⟩ else none

def fieldName (value : String) : Option FieldName := Identifier.new .fieldName value

def enumLabel (value : String) : Option EnumLabel := Identifier.new .enumLabel value

/-- `u32::MAX`. -/
def maxIndex : Nat := 2 ^ 32 - 1

def fieldSegment (value : String) : DiagnosticPathSegment :=
  match fieldName value with
  | some name => .field name
  | none => .index maxIndex

def indexSegment (value : Nat) : DiagnosticPathSegment := .index (min value maxIndex)

def withField (path : DiagnosticPath) (field : String) : DiagnosticPath :=
  path ++ [fieldSegment field]

def fieldPath (path : DiagnosticPath) (fields : List String) : DiagnosticPath :=
  path ++ fields.map fieldSegment

def indexedFieldPath (path : DiagnosticPath) (field : String) (index : Nat) : DiagnosticPath :=
  withField path field ++ [indexSegment index]

def childPath (path : DiagnosticPath) (field : String) (index : Nat) (name : NodeName) :
    DiagnosticPath :=
  indexedFieldPath path field index ++ [.node name]

def namedChildPath (path : DiagnosticPath) (field : String) (name : NodeName) : DiagnosticPath :=
  withField path field ++ [.node name]

def guardPath (path : DiagnosticPath) (collection : String) (index : Nat) (field : String) :
    DiagnosticPath :=
  indexedFieldPath path collection index ++ [fieldSegment field]

def choiceBranchNodePath (path : DiagnosticPath) (index : Nat) (name : NodeName) :
    DiagnosticPath :=
  indexedFieldPath path "branches" index ++ [fieldSegment "node", .node name]

def rootPath : DiagnosticPath := [fieldSegment "root"]

/-! ## Canonical order -/

/-- `path_segment_key`. -/
def DiagnosticPathSegment.key : DiagnosticPathSegment → Nat × String × Nat
  | .field name => (0, name.asStr, 0)
  | .index value => (1, "", value)
  | .node name => (2, name.asStr, 0)

def compareSegments (a b : DiagnosticPathSegment) : Ordering :=
  (compare a.key.1 b.key.1).then ((compare a.key.2.1 b.key.2.1).then
    (compare a.key.2.2 b.key.2.2))

/-- `compare_paths`: a path comes after its prefixes. -/
def comparePaths : DiagnosticPath → DiagnosticPath → Ordering
  | [], [] => .eq
  | [], _ :: _ => .lt
  | _ :: _, [] => .gt
  | a :: as, b :: bs => (compareSegments a b).then (comparePaths as bs)

def compareDiagnostics (a b : GraphDiagnostic) : Ordering :=
  (comparePaths a.path b.path).then ((compare a.code.rank b.code.rank).then
    ((compare a.message b.message).then (compare a.relatedNodes b.relatedNodes)))

def notAfter (a b : GraphDiagnostic) : Prop := compareDiagnostics a b ≠ .gt

instance : DecidableRel notAfter := fun a b =>
  inferInstanceAs (Decidable (compareDiagnostics a b ≠ .gt))

/-- `sort_diagnostics`, a stable sort. -/
def sortDiagnostics (diagnostics : List GraphDiagnostic) : List GraphDiagnostic :=
  diagnostics.insertionSort notAfter

/-- `emit` keeps the related nodes sorted and without repetition. -/
def diagnostic (code : GraphDiagnosticCode) (message : String) (path : DiagnosticPath)
    (relatedNodes : List NodeName) : GraphDiagnostic :=
  ⟨code, message, path, OrdSet.ofList relatedNodes⟩

end Zeroshot
