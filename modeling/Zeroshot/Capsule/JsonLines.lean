import Mathlib.Data.List.Basic

set_option autoImplicit false

/-!
# Provider JSON Lines

The framer of a provider's output. It keeps the bytes of one unfinished record between chunks, up
to a limit, and from the first byte beyond the limit only the fact that the record is too long.

The state after some bytes is determined by the unfinished line alone (`stateOf`): appending takes
the state of a line to the state of the longer line (`append_stateOf`), and the end of a line gives
the record of its bytes (`completeRecord_stateOf`). So the records are those of the lines of the
whole stream, however it is cut into chunks (**`framing_independent`**).
-/

namespace Zeroshot

/-! ## The framer -/

inductive ProviderJsonLine
  | record (bytes : List UInt8)
  | oversized
  deriving DecidableEq, Repr

structure ProviderJsonLines where
  pending : List UInt8
  discardingOversized : Bool
  maxRecordBytes : Nat
  deriving DecidableEq, Repr

def newline : UInt8 := 10

def carriageReturn : UInt8 := 13

namespace ProviderJsonLines

/-- `with_max_record_bytes`. -/
def withMaxRecordBytes (maxRecordBytes : Nat) : ProviderJsonLines := ⟨[], false, maxRecordBytes⟩

/-- `append`. -/
def append (lines : ProviderJsonLines) (bytes : List UInt8) : ProviderJsonLines :=
  if lines.discardingOversized then lines
  else if bytes.length ≤ lines.maxRecordBytes - lines.pending.length then
    { lines with pending := lines.pending ++ bytes }
  else { lines with pending := [], discardingOversized := true }

/-- The bytes without one trailing carriage return. -/
def trimmed (bytes : List UInt8) : List UInt8 :=
  if bytes.getLast? = some carriageReturn then bytes.dropLast else bytes

/-- `complete_record`. -/
def completeRecord (lines : ProviderJsonLines) : ProviderJsonLine × ProviderJsonLines :=
  if lines.discardingOversized then (.oversized, { lines with discardingOversized := false })
  else (.record (trimmed lines.pending), { lines with pending := [] })

/-- The loop of `push`; `segment` holds the bytes since the last newline. -/
def pushFrom (lines : ProviderJsonLines) (segment : List UInt8) :
    List UInt8 → List ProviderJsonLine × ProviderJsonLines
  | [] => ([], lines.append segment)
  | byte :: bytes =>
    if byte != newline then pushFrom lines (segment ++ [byte]) bytes
    else
      let (record, lines) := (lines.append segment).completeRecord
      let (records, lines) := pushFrom lines [] bytes
      (record :: records, lines)

/-- `push`. -/
def push (lines : ProviderJsonLines) (bytes : List UInt8) :
    List ProviderJsonLine × ProviderJsonLines :=
  lines.pushFrom [] bytes

/-- `finish`. -/
def finish (lines : ProviderJsonLines) : Option ProviderJsonLine × ProviderJsonLines :=
  if lines.pending.isEmpty && !lines.discardingOversized then (none, lines)
  else
    let (record, lines) := lines.completeRecord
    (some record, lines)

/-- The chunks pushed one after another. -/
def pushAll (lines : ProviderJsonLines) :
    List (List UInt8) → List ProviderJsonLine × ProviderJsonLines
  | [] => ([], lines)
  | chunk :: chunks =>
    let (records, lines) := lines.push chunk
    let (rest, lines) := pushAll lines chunks
    (records ++ rest, lines)

/-- The records of the chunks and of `finish`. -/
def records (limit : Nat) (chunks : List (List UInt8)) : List ProviderJsonLine :=
  let (records, lines) := (withMaxRecordBytes limit).pushAll chunks
  records ++ lines.finish.1.toList

/-! ## The state of an unfinished line -/

/-- The framer after the bytes of a line that has not ended. -/
def stateOf (limit : Nat) (line : List UInt8) : ProviderJsonLines :=
  if limit < line.length then ⟨[], true, limit⟩ else ⟨line, false, limit⟩

/-- The record of a line. -/
def recordOf (limit : Nat) (line : List UInt8) : ProviderJsonLine :=
  if limit < line.length then .oversized else .record (trimmed line)

variable (limit : Nat)

theorem stateOf_nil : stateOf limit [] = withMaxRecordBytes limit := by
  simp [stateOf, withMaxRecordBytes]

/-- **Appending takes the state of a line to the state of the longer line.** -/
theorem append_stateOf (line bytes : List UInt8) :
    (stateOf limit line).append bytes = stateOf limit (line ++ bytes) := by
  unfold stateOf append
  rw [List.length_append]
  by_cases hlong : limit < line.length
  · have hlonger : limit < line.length + bytes.length := by omega
    simp [hlong, hlonger]
  · by_cases hfits : bytes.length ≤ limit - line.length
    · have hshort : ¬ limit < line.length + bytes.length := by omega
      simp [hlong, hfits, hshort]
    · have hlonger : limit < line.length + bytes.length := by omega
      simp [hlong, hfits, hlonger]

theorem completeRecord_stateOf (line : List UInt8) :
    (stateOf limit line).completeRecord = (recordOf limit line, withMaxRecordBytes limit) := by
  unfold stateOf recordOf completeRecord withMaxRecordBytes
  by_cases hlong : limit < line.length <;> simp [hlong]

theorem finish_stateOf (line : List UInt8) :
    (stateOf limit line).finish.1 = if line = [] then none else some (recordOf limit line) := by
  have hempty : ((stateOf limit line).pending.isEmpty &&
      !(stateOf limit line).discardingOversized) = decide (line = []) := by
    unfold stateOf
    by_cases hlong : limit < line.length
    · have hne : line ≠ [] := List.ne_nil_of_length_pos (by omega)
      simp [hlong, hne]
    · rw [if_neg hlong]
      cases line <;> simp
  unfold finish
  rw [hempty, completeRecord_stateOf]
  by_cases hnil : line = [] <;> simp [hnil]

theorem retained_le (line : List UInt8) : (stateOf limit line).pending.length ≤ limit := by
  unfold stateOf
  by_cases hlong : limit < line.length
  · simp [hlong]
  · simp [hlong]
    omega

/-! ## Lines of a stream -/

/-- The stream is these lines, each with its newline, and an unterminated rest. -/
structure Lines (stream : List UInt8) (lines : List (List UInt8)) (rest : List UInt8) : Prop where
  whole : stream = (lines.map fun line => line ++ [newline]).flatten ++ rest
  unbroken : ∀ line ∈ lines, newline ∉ line
  open_ : newline ∉ rest

theorem append_newline_inj {line line' tail tail' : List UInt8} (hline : newline ∉ line)
    (hline' : newline ∉ line') (h : line ++ newline :: tail = line' ++ newline :: tail') :
    line = line' ∧ tail = tail' := by
  induction line generalizing line' with
  | nil =>
    cases line' with
    | nil => exact ⟨rfl, List.tail_eq_of_cons_eq h⟩
    | cons byte line' =>
      rw [List.nil_append, List.cons_append] at h
      exact absurd (List.head_eq_of_cons_eq h ▸ List.mem_cons_self) hline'
  | cons byte line ih =>
    cases line' with
    | nil =>
      rw [List.nil_append, List.cons_append] at h
      exact absurd (List.head_eq_of_cons_eq h ▸ List.mem_cons_self) hline
    | cons byte' line' =>
      rw [List.cons_append, List.cons_append] at h
      obtain ⟨hsame, htail⟩ := ih (List.not_mem_of_not_mem_cons hline)
        (List.not_mem_of_not_mem_cons hline') (List.tail_eq_of_cons_eq h)
      exact ⟨by rw [List.head_eq_of_cons_eq h, hsame], htail⟩

/-- **A stream has one decomposition into lines.** -/
theorem Lines.unique {stream : List UInt8} {lines more : List (List UInt8)} {rest last : List UInt8}
    (hfirst : Lines stream lines rest) (hsecond : Lines stream more last) :
    lines = more ∧ rest = last := by
  induction lines generalizing stream more with
  | nil =>
    have hwhole : stream = rest := by simpa using hfirst.whole
    cases more with
    | nil => exact ⟨rfl, by simpa [hwhole] using hsecond.whole⟩
    | cons line more =>
      -- The rest holds no newline, a line ends in one.
      have hin : newline ∈ stream := by simp [hsecond.whole]
      exact absurd (hwhole ▸ hin) hfirst.open_
  | cons line lines ih =>
    have hunbroken := List.forall_mem_cons.mp hfirst.unbroken
    cases more with
    | nil =>
      have hwhole : stream = last := by simpa using hsecond.whole
      have hin : newline ∈ stream := by simp [hfirst.whole]
      exact absurd (hwhole ▸ hin) hsecond.open_
    | cons line' more =>
      have hunbroken' := List.forall_mem_cons.mp hsecond.unbroken
      have hsame := hfirst.whole.symm.trans hsecond.whole
      simp only [List.map_cons, List.flatten_cons, List.append_assoc, List.cons_append,
        List.nil_append] at hsame
      obtain ⟨hline, htail⟩ := append_newline_inj hunbroken.1 hunbroken'.1 hsame
      obtain ⟨hlines, hrest⟩ := ih ⟨rfl, hunbroken.2, hfirst.open_⟩
        ⟨htail, hunbroken'.2, hsecond.open_⟩
      exact ⟨by rw [hline, hlines], hrest⟩

theorem Lines.append {front bytes : List UInt8} {lines : List (List UInt8)} {rest : List UInt8}
    {more : List (List UInt8)} {last : List UInt8} (hfirst : Lines front lines rest)
    (hsecond : Lines (rest ++ bytes) more last) : Lines (front ++ bytes) (lines ++ more) last := by
  refine ⟨?_, ?_, hsecond.open_⟩
  · have hwhole := hsecond.whole
    rw [hfirst.whole, List.append_assoc, hwhole]
    simp
  · intro line hline
    rcases List.mem_append.mp hline with hin | hin
    · exact hfirst.unbroken line hin
    · exact hsecond.unbroken line hin

/-! ## Pushing -/

/-- Pushing bytes after an unfinished line gives the records of the lines they finish. -/
theorem pushFrom_stateOf (bytes line segment : List UInt8) (hline : newline ∉ line ++ segment) :
    ∃ lines rest, Lines (line ++ segment ++ bytes) lines rest ∧
      (stateOf limit line).pushFrom segment bytes =
        (lines.map (recordOf limit), stateOf limit rest) := by
  induction bytes generalizing line segment with
  | nil =>
    refine ⟨[], line ++ segment, ⟨by simp, fun _ h => (by cases h), hline⟩, ?_⟩
    rw [pushFrom, append_stateOf]
    rfl
  | cons byte bytes ih =>
    by_cases hbyte : byte = newline
    · obtain ⟨lines, rest, hlines, hpush⟩ := ih [] [] (by simp)
      refine ⟨(line ++ segment) :: lines, rest, ⟨?_, ?_, hlines.open_⟩, ?_⟩
      · have hwhole := hlines.whole
        rw [List.nil_append, List.nil_append] at hwhole
        rw [hbyte, hwhole]
        simp
      · exact List.forall_mem_cons.mpr ⟨hline, hlines.unbroken⟩
      · rw [pushFrom, append_stateOf, completeRecord_stateOf, ← stateOf_nil]
        simp [hbyte, hpush]
    · have hlonger : newline ∉ line ++ (segment ++ [byte]) := by
        rw [← List.append_assoc]
        simp only [List.mem_append, List.mem_singleton, not_or] at hline ⊢
        exact ⟨hline, Ne.symm hbyte⟩
      obtain ⟨lines, rest, hlines, hpush⟩ := ih line (segment ++ [byte]) hlonger
      refine ⟨lines, rest, by simpa using hlines, ?_⟩
      rw [pushFrom]
      simp [hbyte, hpush]

theorem pushAll_stateOf (chunks : List (List UInt8)) (line : List UInt8) (hline : newline ∉ line) :
    ∃ lines rest, Lines (line ++ chunks.flatten) lines rest ∧
      (stateOf limit line).pushAll chunks = (lines.map (recordOf limit), stateOf limit rest) := by
  induction chunks generalizing line with
  | nil =>
    refine ⟨[], line, ⟨by simp, fun _ h => (by cases h), hline⟩, ?_⟩
    simp [pushAll]
  | cons chunk chunks ih =>
    have hsegment : newline ∉ line ++ [] := by rwa [List.append_nil]
    obtain ⟨lines, rest, hlines, hpush⟩ := pushFrom_stateOf limit chunk line [] hsegment
    obtain ⟨more, last, hmore, hall⟩ := ih rest hlines.open_
    rw [List.append_nil] at hlines
    refine ⟨lines ++ more, last, ?_, ?_⟩
    · rw [List.flatten_cons, ← List.append_assoc]
      exact hlines.append hmore
    · rw [pushAll, push, hpush]
      simp [hall]

/-- The records of a stream that is these lines and this rest. -/
def recordsOf (lines : List (List UInt8)) (rest : List UInt8) : List ProviderJsonLine :=
  lines.map (recordOf limit) ++ if rest = [] then [] else [recordOf limit rest]

theorem records_eq (chunks : List (List UInt8)) : ∃ lines rest,
    Lines chunks.flatten lines rest ∧ records limit chunks = recordsOf limit lines rest := by
  obtain ⟨lines, rest, hlines, hpush⟩ := pushAll_stateOf limit chunks [] List.not_mem_nil
  refine ⟨lines, rest, by simpa using hlines, ?_⟩
  unfold records recordsOf
  rw [← stateOf_nil, hpush]
  simp only [finish_stateOf]
  by_cases hrest : rest = [] <;> simp [hrest]

/-- **Framing does not depend on the chunks.** The records are those of the stream's lines, the
same as for a single push, and no more than the limit is retained after any of the pushes. -/
theorem framing_independent (chunks : List (List UInt8)) :
    (∃ lines rest, Lines chunks.flatten lines rest ∧
      records limit chunks = recordsOf limit lines rest) ∧
    records limit chunks = records limit [chunks.flatten] ∧
    ∀ pushed, pushed <+: chunks →
      ((withMaxRecordBytes limit).pushAll pushed).2.pending.length ≤ limit := by
  refine ⟨records_eq limit chunks, ?_, fun pushed _ => ?_⟩
  · obtain ⟨lines, rest, hlines, hrecords⟩ := records_eq limit chunks
    obtain ⟨more, last, hmore, hsingle⟩ := records_eq limit [chunks.flatten]
    rw [List.flatten_singleton] at hmore
    obtain ⟨hsame, hrest⟩ := hlines.unique hmore
    rw [hrecords, hsingle, hsame, hrest]
  · obtain ⟨lines, rest, -, hpush⟩ := pushAll_stateOf limit pushed [] List.not_mem_nil
    rw [← stateOf_nil, hpush]
    exact retained_le limit rest

-- A carriage return before a newline that opens the next chunk, and a line beyond the limit.
example : records 3 [[97, 13], [10, 98, 98, 98, 98], [98, 10], [99]] =
    [.record [97], .oversized, .record [99]] := by decide

end ProviderJsonLines

end Zeroshot
