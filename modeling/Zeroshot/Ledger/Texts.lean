import Zeroshot.Ledger.Lifecycle
import Zeroshot.Protocol.Canonical

set_option autoImplicit false

/-!
# The JSON of execution events

What `serde_json` writes for the events of an execution, up to the texts of payloads and outcomes.
An imported execution repeats what the two events of the execution said, so it is longer than both
together by less than the extra bytes its own ceiling has.

* **`settled_length`**, **`voided_length`**: the length of an imported execution.
-/

namespace Zeroshot.Ledger

/-! ## Texts -/

def numberText (value : Nat) : List UInt8 := utf8Bytes (toString value)

def arrayText (items : List (List UInt8)) : List UInt8 :=
  utf8Bytes "[" ++ commaSeparated items ++ utf8Bytes "]"

def fieldText (field : String × List UInt8) : List UInt8 :=
  writeString field.1 ++ utf8Bytes ":" ++ field.2

/-- A structure: its fields in the order of their declaration. -/
def structText (fields : List (String × List UInt8)) : List UInt8 :=
  utf8Bytes "\x7b" ++ commaSeparated (fields.map fieldText) ++ utf8Bytes "\x7d"

/-- The texts of the parts an event only carries, and of the events that are about no execution. -/
structure Texts where
  value : Value → List UInt8
  outcome : WorkerOutcome → Option (List UInt8)
  other : RunEvent → Option (List UInt8)

def ExecutionRef.text (reference : ExecutionRef) : List UInt8 :=
  structText [("runId", writeString reference.runId.asStr),
    ("node", writeString reference.node.asStr),
    ("nodeInstance", numberText reference.nodeInstance.get),
    ("execution", numberText reference.execution.get)]

def occurrenceText (occurrence : StructuralOccurrence) : List UInt8 :=
  structText [("node", writeString occurrence.node.asStr),
    ("mapIndices", arrayText (occurrence.mapIndices.map numberText))]

def voidReasonText : ExecutionVoidReason → List UInt8
  | .parallelJoin => writeString "parallel_join"
  | .mapTerminal => writeString "map_terminal"

section

variable (texts : Texts)

/-- A `DurableExecutionState`, under its variant's name. -/
def durableStateText : DurableExecutionState → Option (List UInt8)
  | .active => some (writeString "Active")
  | .settled position outcome => do
    let outcome ← texts.outcome outcome
    some (structText [("Settled",
      structText [("position", numberText position.val), ("outcome", outcome)])])
  | .voided position reason =>
    some (structText [("Voided",
      structText [("position", numberText position.val), ("reason", voidReasonText reason)])])

/-- A `DurableExecution` whose state is written. -/
def durableText (e : DurableExecution) (state : List UInt8) : List UInt8 :=
  structText [("dispatch_position", numberText e.dispatchPosition.val),
    ("node_instance", numberText e.nodeInstance.get), ("execution", numberText e.execution.get),
    ("occurrence", occurrenceText e.occurrence), ("attempt", numberText e.attempt.get),
    ("input", texts.value e.input), ("state", state)]

/-- An event, under its kind. -/
def eventText : RunEvent → Option (List UInt8)
  | .priorExecution e => do
    let state ← durableStateText texts e.state
    some (structText [("kind", writeString "prior_execution"),
      ("execution", durableText texts e state)])
  | .nodeStarted reference occurrence attempt input =>
    some (structText [("kind", writeString "node_started"), ("reference", reference.text),
      ("occurrence", occurrenceText occurrence), ("attempt", numberText attempt.get),
      ("input", texts.value input)])
  | .nodeCompleted completion => do
    let outcome ← texts.outcome completion.outcome
    some (structText [("kind", writeString "node_completed"),
      ("completion",
        structText [("reference", completion.reference.text), ("outcome", outcome)])])
  | .executionVoided reference reason =>
    some (structText [("kind", writeString "execution_voided"), ("reference", reference.text),
      ("reason", voidReasonText reason)])
  | event => texts.other event

/-- The wire of these texts. -/
def Texts.wire (executionToken : ExecutionRef → String) : Wire where
  eventBytes event := (eventText texts event).map List.length
  executionToken := executionToken

end

/-! ## Lengths -/

theorem length_utf8Bytes_ofList (text : List Char) :
    (utf8Bytes (String.ofList text)).length = (text.map Char.utf8Size).sum := by
  induction text with
  | nil => rfl
  | cons c text ih =>
    unfold utf8Bytes at ih ⊢
    simp [List.utf8Encode] at ih ⊢

theorem length_numberText {value : Nat} (h : value < 10 ^ 20) : (numberText value).length ≤ 80 := by
  have hdigits : (Nat.toDigits 10 value).length ≤ 20 :=
    (Nat.length_toDigits_le_iff (by omega) (by omega)).mpr h
  have hsize : ∀ text : List Char, (text.map Char.utf8Size).sum ≤ 4 * text.length := by
    intro text
    induction text with
    | nil => exact le_refl _
    | cons c text ih =>
      have hc := c.utf8Size_le_four
      simp only [List.map_cons, List.sum_cons, List.length_cons]
      omega
  change (utf8Bytes (Nat.repr value)).length ≤ 80
  rw [Nat.repr_eq_ofList_toDigits, length_utf8Bytes_ofList]
  exact (hsize _).trans (by omega)

theorem length_commaSeparated (pieces : List (List UInt8)) :
    (commaSeparated pieces).length = (pieces.map List.length).sum + (pieces.length - 1) := by
  unfold commaSeparated
  induction pieces with
  | nil => rfl
  | cons piece pieces ih =>
    cases pieces with
    | nil => simp
    | cons next pieces =>
      have hcomma : (utf8Bytes ",").length = 1 := by decide
      simp only [List.intersperse_cons_cons, List.flatten_cons, List.length_append, hcomma, ih]
      simp only [List.map_cons, List.sum_cons, List.length_cons]
      omega

@[simp] theorem length_fieldText (name : String) (text : List UInt8) :
    (fieldText (name, text)).length = (writeString name).length + 1 + text.length := by
  have hcolon : (utf8Bytes ":").length = 1 := by decide
  rw [fieldText, List.length_append, List.length_append, hcolon]

theorem length_structText (fields : List (String × List UInt8)) :
    (structText fields).length =
      ((fields.map fieldText).map List.length).sum + (fields.length - 1) + 2 := by
  have hopened : (utf8Bytes "\x7b").length = 1 := by decide
  have hclosed : (utf8Bytes "\x7d").length = 1 := by decide
  rw [structText, List.length_append, List.length_append, hopened, hclosed, length_commaSeparated,
    List.length_map]
  omega

/-- The names an imported execution is written with. -/
def durableNames : List String :=
  ["kind", "prior_execution", "execution", "dispatch_position", "node_instance", "occurrence",
    "attempt", "input", "state", "Settled", "Voided", "position", "outcome", "reason",
    "parallel_join", "map_terminal"]

theorem length_durableNames : ∀ name ∈ durableNames, (writeString name).length ≤ 20 := by
  decide

theorem length_voidReasonText (reason : ExecutionVoidReason) :
    (voidReasonText reason).length ≤ 20 := by
  cases reason with
  | parallelJoin => exact length_durableNames "parallel_join" (by decide)
  | mapTerminal => exact length_durableNames "map_terminal" (by decide)

/-- The identities of a reference are part of its text. -/
theorem length_reference_ge (reference : ExecutionRef) :
    (numberText reference.nodeInstance.get).length +
      (numberText reference.execution.get).length ≤ reference.text.length := by
  unfold ExecutionRef.text
  rw [length_structText]
  simp only [List.map_cons, List.map_nil, List.sum_cons, List.sum_nil, length_fieldText]
  omega

/-- An imported execution, written with a state, against the event that started it. -/
theorem length_durableText (texts : Texts) {e : DurableExecution} {reference : ExecutionRef}
    (hinstance : e.nodeInstance = reference.nodeInstance)
    (hexecution : e.execution = reference.execution) (state started : List UInt8)
    (hstarted : eventText texts (.nodeStarted reference e.occurrence e.attempt e.input) =
      some started) :
    (durableText texts e state).length ≤ started.length + state.length + 300 := by
  cases hstarted
  have hreference := length_reference_ge reference
  have hposition : (numberText e.dispatchPosition.val).length ≤ 80 :=
    length_numberText (e.dispatchPosition.isLt.trans (by omega))
  have h₁ := length_durableNames "dispatch_position" (by decide)
  have h₂ := length_durableNames "node_instance" (by decide)
  have h₃ := length_durableNames "execution" (by decide)
  have h₄ := length_durableNames "state" (by decide)
  unfold durableText
  rw [length_structText, length_structText, hinstance, hexecution]
  simp only [List.map_cons, List.map_nil, List.sum_cons, List.sum_nil, length_fieldText,
    List.length_cons, List.length_nil]
  omega

/-- **A settled execution** is imported with less than both its events and the extra bytes. -/
theorem settled_length (texts : Texts) {e : DurableExecution} {reference : ExecutionRef}
    {position : HistoryPosition} {outcome : WorkerOutcome}
    (hstate : e.state = .settled position outcome)
    (hinstance : e.nodeInstance = reference.nodeInstance)
    (hexecution : e.execution = reference.execution) {started completed : List UInt8}
    (hstarted : eventText texts (.nodeStarted reference e.occurrence e.attempt e.input) =
      some started)
    (hcompleted : eventText texts (.nodeCompleted ⟨reference, outcome⟩) = some completed) :
    ∃ text, eventText texts (.priorExecution e) = some text ∧
      text.length ≤ started.length + completed.length + 1024 := by
  obtain ⟨written, hwritten, hcompleted⟩ := Option.bind_eq_some_iff.mp hcompleted
  cases hcompleted
  let state := structText [("Settled",
    structText [("position", numberText position.val), ("outcome", written)])]
  have hdurable := length_durableText texts hinstance hexecution state started hstarted
  have hposition : (numberText position.val).length ≤ 80 :=
    length_numberText (position.isLt.trans (by omega))
  have h₁ := length_durableNames "Settled" (by decide)
  have h₂ := length_durableNames "position" (by decide)
  have h₃ := length_durableNames "outcome" (by decide)
  have h₄ := length_durableNames "kind" (by decide)
  have h₅ := length_durableNames "prior_execution" (by decide)
  have h₆ := length_durableNames "execution" (by decide)
  have hlength : state.length ≤ written.length + 200 := by
    simp only [state]
    rw [length_structText]
    simp only [List.map_cons, List.map_nil, List.sum_cons, List.sum_nil, length_fieldText,
      List.length_cons, List.length_nil, length_structText]
    omega
  refine ⟨structText [("kind", writeString "prior_execution"),
    ("execution", durableText texts e state)], ?_, ?_⟩
  · rw [eventText, hstate, durableStateText, hwritten]
    rfl
  · simp only [length_structText, List.map_cons, List.map_nil, List.sum_cons, List.sum_nil,
      length_fieldText, List.length_cons, List.length_nil]
    omega

/-- **A voided execution** is imported with less than the event that started it and the extra
bytes. -/
theorem voided_length (texts : Texts) {e : DurableExecution} {reference : ExecutionRef}
    {position : HistoryPosition} {reason : ExecutionVoidReason}
    (hstate : e.state = .voided position reason)
    (hinstance : e.nodeInstance = reference.nodeInstance)
    (hexecution : e.execution = reference.execution) {started : List UInt8}
    (hstarted : eventText texts (.nodeStarted reference e.occurrence e.attempt e.input) =
      some started) :
    ∃ text, eventText texts (.priorExecution e) = some text ∧
      text.length ≤ started.length + 1024 := by
  let state := structText [("Voided",
    structText [("position", numberText position.val), ("reason", voidReasonText reason)])]
  have hdurable := length_durableText texts hinstance hexecution state started hstarted
  have hposition : (numberText position.val).length ≤ 80 :=
    length_numberText (position.isLt.trans (by omega))
  have hreason := length_voidReasonText reason
  have h₁ := length_durableNames "Voided" (by decide)
  have h₂ := length_durableNames "position" (by decide)
  have h₃ := length_durableNames "reason" (by decide)
  have h₄ := length_durableNames "kind" (by decide)
  have h₅ := length_durableNames "prior_execution" (by decide)
  have h₆ := length_durableNames "execution" (by decide)
  have hlength : state.length ≤ 250 := by
    simp only [state]
    rw [length_structText]
    simp only [List.map_cons, List.map_nil, List.sum_cons, List.sum_nil, length_fieldText,
      List.length_cons, List.length_nil, length_structText]
    omega
  refine ⟨structText [("kind", writeString "prior_execution"),
    ("execution", durableText texts e state)], ?_, ?_⟩
  · rw [eventText, hstate]
    rfl
  · simp only [length_structText, List.map_cons, List.map_nil, List.sum_cons, List.sum_nil,
      length_fieldText, List.length_cons, List.length_nil]
    omega

/-! ## Bounds -/

theorem validateEvent_wire {texts : Texts} {executionToken : ExecutionRef → String}
    {event : RunEvent} : validateEvent (texts.wire executionToken) event = true ↔
      ∃ text, eventText texts event = some text ∧ text.length ≤ eventLimit event := by
  unfold validateEvent Texts.wire
  dsimp only
  cases eventText texts event with
  | none => simp
  | some text => simp

end Zeroshot.Ledger
