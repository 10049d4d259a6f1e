import Mathlib.Data.List.Destutter
import Mathlib.Data.List.Sort
import Zeroshot.Protocol.Encoding

set_option autoImplicit false

/-!
# Canonical form

Two graphs that differ only in the order of commutative parts have one identity. `normalizeNode`
puts those parts in order: operands of nested conjunctions and disjunctions are flattened, sorted
and deduplicated, bindings and branches are sorted. The order is that of the canonical JSON bytes,
which `writeCanonicalJson` writes with sorted keys and without floats.

Normalization can fail in two ways, a float or a collection outside its limits. On values without
floats the writer never fails (`writeCanonicalJson_of_floatFree`), and sorting neither empties nor
lengthens a list.
-/

namespace Zeroshot

/-- `CanonicalError`, as far as normalization raises it. -/
inductive CanonicalError
  | floatingPoint
  | emptyAfterNormalization
  deriving DecidableEq, Repr

def CanonicalError.message : CanonicalError → String
  | floatingPoint => "canonical IR cannot contain floating-point values"
  | emptyAfterNormalization => "canonical normalization violated the non-empty graph invariant"

/-! ## The writer -/

def utf8Bytes (text : String) : List UInt8 := text.toByteArray.data.toList

/-- A lower-case hexadecimal digit. -/
def hexDigit (digit : Nat) : Char := Char.ofNat (if digit < 10 then 48 + digit else 87 + digit)

/-- One character inside a JSON string. -/
def escapedChar (c : Char) : String :=
  match c.toNat with
  | 8 => "\\b"
  | 9 => "\\t"
  | 10 => "\\n"
  | 12 => "\\f"
  | 13 => "\\r"
  | 34 => "\\\""
  | 92 => "\\\\"
  | code =>
    if code < 32 then "\\u00" ++ String.ofList [hexDigit (code / 16), hexDigit (code % 16)]
    else String.singleton c

/-- A string as `serde_json` writes it. -/
def writeString (text : String) : List UInt8 :=
  utf8Bytes "\"" ++ text.toList.flatMap (fun c => utf8Bytes (escapedChar c)) ++ utf8Bytes "\""

/-- The pieces with a comma between neighbours. -/
def commaSeparated (pieces : List (List UInt8)) : List UInt8 :=
  (pieces.intersperse (utf8Bytes ",")).flatten

/-- The key of the left entry does not come after the key of the right one. -/
def keyNotAfter {α : Type} (left right : List UInt8 × α) : Prop :=
  compareBytes left.1 right.1 ≠ .gt

instance {α : Type} : DecidableRel (@keyNotAfter α) := fun _ _ =>
  inferInstanceAs (Decidable (_ ≠ _))

/-- `write_canonical_object`, from the entries with their values written. -/
def writeEntries (entries : List (String × List UInt8)) : List UInt8 :=
  let keyed := (entries.map fun entry => (utf8Bytes entry.1, entry)).insertionSort keyNotAfter
  utf8Bytes "\x7b" ++
    commaSeparated (keyed.map fun entry => writeString entry.2.1 ++ utf8Bytes ":" ++ entry.2.2) ++
    utf8Bytes "\x7d"

mutual

/-- `write_canonical_json`, where floats are not allowed. -/
def writeCanonicalJson : Value → Except CanonicalError (List UInt8)
  | .null => pure (utf8Bytes "null")
  | .bool value => pure (utf8Bytes (if value then "true" else "false"))
  | .number (.int value) => pure (utf8Bytes (toString value))
  | .number (.float _) => throw .floatingPoint
  | .string text => pure (writeString text)
  | .array items => do
    let pieces ← writeItems items
    pure (utf8Bytes "[" ++ commaSeparated pieces ++ utf8Bytes "]")
  | .object fields => do
    let entries ← writeFields fields
    pure (writeEntries entries)

def writeItems : List Value → Except CanonicalError (List (List UInt8))
  | [] => pure []
  | item :: items => do
    let piece ← writeCanonicalJson item
    let pieces ← writeItems items
    pure (piece :: pieces)

def writeFields : List (String × Value) → Except CanonicalError (List (String × List UInt8))
  | [] => pure []
  | (key, value) :: fields => do
    let piece ← writeCanonicalJson value
    let entries ← writeFields fields
    pure ((key, piece) :: entries)

end

mutual

/-- **A value without floats is written.** -/
theorem writeCanonicalJson_of_floatFree : ∀ value : Value, value.floatFree = true →
    ∃ bytes, writeCanonicalJson value = .ok bytes
  | .null, _ | .bool _, _ | .number (.int _), _ | .string _, _ => ⟨_, rfl⟩
  | .number (.float _), h => by cases h
  | .array items, h => by
    obtain ⟨pieces, hpieces⟩ := writeItems_of_floatFree items h
    exact ⟨_, by rw [writeCanonicalJson, hpieces]; rfl⟩
  | .object fields, h => by
    obtain ⟨entries, hentries⟩ := writeFields_of_floatFree fields h
    exact ⟨_, by rw [writeCanonicalJson, hentries]; rfl⟩

theorem writeItems_of_floatFree : ∀ items : List Value, itemsFloatFree items = true →
    ∃ pieces, writeItems items = .ok pieces
  | [], _ => ⟨[], rfl⟩
  | item :: items, h => by
    rw [itemsFloatFree, Bool.and_eq_true] at h
    obtain ⟨piece, hpiece⟩ := writeCanonicalJson_of_floatFree item h.1
    obtain ⟨pieces, hpieces⟩ := writeItems_of_floatFree items h.2
    exact ⟨piece :: pieces, by rw [writeItems, hpiece, hpieces]; rfl⟩

theorem writeFields_of_floatFree : ∀ fields : List (String × Value),
    fieldsFloatFree fields = true → ∃ entries, writeFields fields = .ok entries
  | [], _ => ⟨[], rfl⟩
  | (key, value) :: fields, h => by
    rw [fieldsFloatFree, Bool.and_eq_true] at h
    obtain ⟨piece, hpiece⟩ := writeCanonicalJson_of_floatFree value h.1
    obtain ⟨entries, hentries⟩ := writeFields_of_floatFree fields h.2
    exact ⟨(key, piece) :: entries, by rw [writeFields, hpiece, hentries]; rfl⟩

end

/-! ## Sorting by canonical JSON -/

section Sorting

variable {α : Type}

/-- `take_sorted_by_canonical_json`. -/
def takeSortedByCanonicalJson (encode : α → Value) (values : List α) :
    Except CanonicalError (List (List UInt8 × α)) := do
  let keyed ← values.mapM fun value => do
    let key ← writeCanonicalJson (encode value)
    pure (key, value)
  pure (keyed.insertionSort keyNotAfter)

/-- `sort_by_canonical_json`. -/
def sortByCanonicalJson (encode : α → Value) (values : List α) :
    Except CanonicalError (List α) := do
  let keyed ← takeSortedByCanonicalJson encode values
  pure (keyed.map Prod.snd)

/-- `sort_and_deduplicate_by_canonical_json`. -/
def sortAndDeduplicateByCanonicalJson (encode : α → Value) (values : List α) :
    Except CanonicalError (List α) := do
  let keyed ← takeSortedByCanonicalJson encode values
  pure ((keyed.destutter fun left right => left.1 ≠ right.1).map Prod.snd)

variable {encode : α → Value} (hencode : ∀ value, (encode value).floatFree = true)

include hencode

theorem takeSorted_perm (values : List α) : ∃ keyed,
    takeSortedByCanonicalJson encode values = .ok keyed ∧ (keyed.map Prod.snd).Perm values := by
  suffices hkeyed : ∃ keyed, (values.mapM fun value => do
      let key ← writeCanonicalJson (encode value)
      pure (key, value)) = .ok keyed ∧ keyed.map Prod.snd = values by
    obtain ⟨keyed, hok, hvalues⟩ := hkeyed
    refine ⟨keyed.insertionSort keyNotAfter, ?_, ?_⟩
    · rw [takeSortedByCanonicalJson, hok]
      rfl
    · exact hvalues ▸ (List.perm_insertionSort keyNotAfter keyed).map Prod.snd
  induction values with
  | nil => exact ⟨[], rfl, rfl⟩
  | cons value values ih =>
    obtain ⟨key, hkey⟩ := writeCanonicalJson_of_floatFree _ (hencode value)
    obtain ⟨keyed, hok, hvalues⟩ := ih
    refine ⟨(key, value) :: keyed, ?_, ?_⟩
    · rw [List.mapM_cons, hkey, hok]
      rfl
    · rw [List.map_cons, hvalues]

/-- Sorting rearranges the list. -/
theorem sortByCanonicalJson_perm (values : List α) : ∃ sorted,
    sortByCanonicalJson encode values = .ok sorted ∧ sorted.Perm values := by
  obtain ⟨keyed, hkeyed, hperm⟩ := takeSorted_perm hencode values
  exact ⟨keyed.map Prod.snd, by rw [sortByCanonicalJson, hkeyed]; rfl, hperm⟩

/-- Sorting and deduplicating keeps some of the values, and one of them at least. -/
theorem sortAndDeduplicate_subperm (values : List α) : ∃ sorted,
    sortAndDeduplicateByCanonicalJson encode values = .ok sorted ∧ sorted.Subperm values ∧
      (sorted = [] → values = []) := by
  obtain ⟨keyed, hkeyed, hperm⟩ := takeSorted_perm hencode values
  refine ⟨_, by rw [sortAndDeduplicateByCanonicalJson, hkeyed]; rfl, ?_, fun hnil => ?_⟩
  · exact ((List.destutter_sublist _ keyed).map Prod.snd).subperm.trans hperm.subperm
  · rw [List.map_eq_nil_iff, List.destutter_eq_nil] at hnil
    rw [hnil, List.map_nil, List.nil_perm] at hperm
    exact hperm

end Sorting

/-! ## Guards -/

/-- `NonEmptyVec::new`, as normalization reports it. -/
def normalizedVec {α : Type} (values : List α) : Except CanonicalError (List α) :=
  if collectionLimits values then pure values else throw .emptyAfterNormalization

theorem normalizedVec_of {α : Type} {values : List α} (h : collectionLimits values = true) :
    normalizedVec values = .ok values := if_pos h

/-- `normalize_selectors`. -/
def normalizeSelectors (values : List ControlSelector) :
    Except CanonicalError (List ControlSelector) := do
  let selectors ← sortByCanonicalJson ControlSelector.toValue values
  normalizedVec selectors

inductive GuardOperation
  | all
  | any
  deriving DecidableEq, Repr

/-- The operands a normalized operand adds to the flattened list. -/
def GuardOperation.operands : GuardOperation → Guard → List Guard
  | .all, .all guards => guards
  | .any, .any guards => guards
  | _, guard => [guard]

/-- The end of `normalize_commutative_guards`, on the flattened operands. -/
def normalizeFlattened (flattened : List Guard) : Except CanonicalError (List Guard) := do
  let guards ← sortAndDeduplicateByCanonicalJson Guard.toValue flattened
  normalizedVec guards

mutual

/-- `normalize_guard`. -/
def normalizeGuard : Guard → Except CanonicalError Guard
  | .inLabels value labels => pure (.inLabels value labels)
  | .kOfMap count value labels => pure (.kOfMap count value labels)
  | .kOfN count values labels => do
    let values ← normalizeSelectors values
    pure (.kOfN count values labels)
  | .not guard => do
    let guard ← normalizeGuard guard
    pure (.not guard)
  | .all guards => do
    let flattened ← flattenGuards .all guards
    let guards ← normalizeFlattened flattened
    pure (.all guards)
  | .any guards => do
    let flattened ← flattenGuards .any guards
    let guards ← normalizeFlattened flattened
    pure (.any guards)

/-- The loop of `normalize_commutative_guards`. -/
def flattenGuards (operation : GuardOperation) : List Guard → Except CanonicalError (List Guard)
  | [] => pure []
  | guard :: guards => do
    let value ← normalizeGuard guard
    let flattened ← flattenGuards operation guards
    pure (operation.operands value ++ flattened)

end

/-! ## Nodes -/

/-- The promoted paths of a group, sorted and deduplicated. -/
def normalizePromotions (group : Group) : Except CanonicalError Group := do
  let paths ← sortAndDeduplicateByCanonicalJson FieldPath.toValue group.promotedStatePaths
  pure { group with promotedStatePaths := paths }

/-- `normalize_worker_bindings`. -/
def normalizeWorkerBindings (inputBindings : List InputBinding)
    (writeBindings : List WriteBinding) :
    Except CanonicalError (List InputBinding × List WriteBinding) := do
  let inputs ← sortByCanonicalJson InputBinding.toValue inputBindings
  let writes ← sortByCanonicalJson WriteBinding.toValue writeBindings
  pure (inputs, writes)

/-- The name of the left node does not come after the name of the right one. -/
def nameNotAfter (left right : GraphNode) : Prop := compare left.name right.name ≠ .gt

instance : DecidableRel nameNotAfter := fun _ _ => inferInstanceAs (Decidable (_ ≠ _))

def normalizeJoin : Join → Except CanonicalError Join
  | .first when => do
    let when ← normalizeGuard when
    pure (.first when)
  | join => pure join

def normalizeUntil : Option Guard → Except CanonicalError (Option Guard)
  | none => pure none
  | some guard => do
    let guard ← normalizeGuard guard
    pure (some guard)

mutual

/-- `normalize_node`. -/
def normalizeNode : GraphNode → Except CanonicalError GraphNode
  | .step node => do
    let (inputs, writes) ← normalizeWorkerBindings node.inputBindings node.writeBindings
    pure (.step { node with inputBindings := inputs, writeBindings := writes })
  | .verifier node => do
    let (inputs, writes) ← normalizeWorkerBindings node.inputBindings node.writeBindings
    pure (.verifier { node with inputBindings := inputs, writeBindings := writes })
  | .seq group children => do
    let children ← normalizeNodes children
    let children ← normalizedVec children
    let group ← normalizePromotions group
    pure (.seq group children)
  | .choice group branches otherwise => do
    let branches ← normalizeBranches branches
    let branches ← normalizedVec branches
    let otherwise ← normalizeOtherwise otherwise
    let group ← normalizePromotions group
    pure (.choice group branches otherwise)
  | .par group branches join => do
    let branches ← normalizeNodes branches
    let branches ← normalizedVec (branches.insertionSort nameNotAfter)
    let group ← normalizePromotions group
    let join ← normalizeJoin join
    pure (.par group branches join)
  | .loop group body untilGuard maxIterations maxIterationsInput => do
    let body ← normalizeNode body
    let untilGuard ← normalizeUntil untilGuard
    let group ← normalizePromotions group
    pure (.loop group body untilGuard maxIterations maxIterationsInput)
  | .map group body overItems maxItems => do
    let body ← normalizeNode body
    let group ← normalizePromotions group
    pure (.map group body overItems maxItems)
  | .succeed node => do
    let bindings ← sortByCanonicalJson InputBinding.toValue node.bindings
    pure (.succeed { node with bindings })
  | .fail node => pure (.fail node)

def normalizeNodes : List GraphNode → Except CanonicalError (List GraphNode)
  | [] => pure []
  | node :: nodes => do
    let node ← normalizeNode node
    let nodes ← normalizeNodes nodes
    pure (node :: nodes)

def normalizeBranches : List (Guard × GraphNode) → Except CanonicalError (List (Guard × GraphNode))
  | [] => pure []
  | (when, node) :: branches => do
    let when ← normalizeGuard when
    let node ← normalizeNode node
    let branches ← normalizeBranches branches
    pure ((when, node) :: branches)

def normalizeOtherwise : Option GraphNode → Except CanonicalError (Option GraphNode)
  | none => pure none
  | some node => do
    let node ← normalizeNode node
    pure (some node)

end

end Zeroshot
