import Mathlib.Data.List.Sort
import Zeroshot.Lib.Occurrences

set_option autoImplicit false

/-!
# Redaction of captured command output

The output of a delivery command is captured up to a bound and shown in diagnostics. `sanitize`
replaces every secret by a marker. When the capture was cut short a secret may straddle the cut, so
the longest end of the capture that is a proper beginning of a secret is trimmed first; the text is
cut to its bound last.

Texts are their UTF-8 bytes. A secret never starts inside a character, so matching bytes is matching
characters.

* `sanitize_hides_iff`: on ASCII output whose secrets overlap only by containment, the text shows no
  byte of a secret if and only if the trim does not cut into a complete secret.
-/

namespace Zeroshot.Redaction

open Occurrences

def maxOperatorDiagnosticTextBytes : Nat := 4 * 1024

def maxDiagnosticBytes : Nat := 4 * maxOperatorDiagnosticTextBytes

/-! ## Capture -/

/-- `CapturedBytes`. -/
structure CapturedBytes where
  bytes : List UInt8
  truncated : Bool
  deriving DecidableEq, Repr

/-- `drain`, on what its reads return; `none` is a read error. -/
def drain (retain : Nat) : List (Option (List UInt8)) → CapturedBytes → CapturedBytes
  | [], captured => captured
  | none :: _, captured => { captured with truncated := true }
  | some [] :: _, captured => captured
  | some buffer :: reads, captured =>
    let count := min (retain - captured.bytes.length) buffer.length
    drain retain reads
      { bytes := captured.bytes ++ buffer.take count
        truncated := captured.truncated || count < buffer.length }

/-! ## Texts -/

/-- The ranges of the bytes after the first byte of a character. -/
def tailRanges (byte : UInt8) : Option (List (UInt8 × UInt8)) :=
  let any : UInt8 × UInt8 := (0x80, 0xBF)
  if byte < 0x80 then some []
  else if 0xC2 ≤ byte ∧ byte ≤ 0xDF then some [any]
  else if byte = 0xE0 then some [(0xA0, 0xBF), any]
  else if byte = 0xED then some [(0x80, 0x9F), any]
  else if 0xE1 ≤ byte ∧ byte ≤ 0xEF then some [any, any]
  else if byte = 0xF0 then some [(0x90, 0xBF), any, any]
  else if byte = 0xF4 then some [(0x80, 0x8F), any, any]
  else if 0xF1 ≤ byte ∧ byte ≤ 0xF3 then some [any, any, any]
  else none

/-- How many bytes fall into their ranges. -/
def tailLength : List (UInt8 × UInt8) → List UInt8 → Nat
  | (low, high) :: ranges, byte :: bytes =>
    if low ≤ byte ∧ byte ≤ high then tailLength ranges bytes + 1 else 0
  | _, _ => 0

/-- `String::from_utf8_lossy`: an invalid part becomes a replacement character. The first two
numbers are the bytes left of a character and of an invalid part. -/
def fromUtf8LossyFrom : Nat → Nat → List UInt8 → List UInt8
  | _, _, [] => []
  | copy + 1, dropped, byte :: bytes => byte :: fromUtf8LossyFrom copy dropped bytes
  | 0, dropped + 1, _ :: bytes => fromUtf8LossyFrom 0 dropped bytes
  | 0, 0, byte :: bytes =>
    match tailRanges byte with
    | none => [0xEF, 0xBF, 0xBD] ++ fromUtf8LossyFrom 0 0 bytes
    | some ranges =>
      if tailLength ranges bytes = ranges.length then
        byte :: fromUtf8LossyFrom ranges.length 0 bytes
      else [0xEF, 0xBF, 0xBD] ++ fromUtf8LossyFrom 0 (tailLength ranges bytes) bytes

def fromUtf8Lossy (bytes : List UInt8) : List UInt8 := fromUtf8LossyFrom 0 0 bytes

/-- `str::is_char_boundary`, up to the length of the text. -/
def isCharBoundary (text : List UInt8) (i : Nat) : Bool :=
  match text[i]? with
  | none => true
  | some byte => i = 0 || byte < 0x80 || 0xC0 ≤ byte

/-- The loop of `sanitize` that looks for a boundary. -/
def floorCharBoundary (text : List UInt8) : Nat → Nat
  | 0 => 0
  | boundary + 1 =>
    if isCharBoundary text (boundary + 1) then boundary + 1 else floorCharBoundary text boundary

/-! ## Redaction -/

/-- The order of the secrets: longer ones first. -/
def orderSecrets (left right : List UInt8) : Ordering :=
  (compare right.length left.length).then (compare left right)

def Precedes (left right : List UInt8) : Prop := orderSecrets left right ≠ .gt

instance : DecidableRel Precedes := fun left right =>
  inferInstanceAs (Decidable (orderSecrets left right ≠ .gt))

/-- `Vec::dedup`. -/
def dedup : List (List UInt8) → List (List UInt8)
  | first :: second :: rest =>
    if first = second then dedup (second :: rest) else first :: dedup (second :: rest)
  | secrets => secrets

/-- The secrets as `redact` tries them. -/
def ordered (secrets : List (List UInt8)) : List (List UInt8) :=
  dedup ((secrets.filter fun secret => !secret.isEmpty).insertionSort Precedes)

/-- `[REDACTED]`. -/
def marker : List UInt8 := [0x5B, 0x52, 0x45, 0x44, 0x41, 0x43, 0x54, 0x45, 0x44, 0x5D]

/-- The loop of `redact`, with how much is left to skip. -/
def redactFrom (secrets : List (List UInt8)) : Nat → List UInt8 → List UInt8
  | _, [] => []
  | skip + 1, _ :: rest => redactFrom secrets skip rest
  | 0, byte :: rest =>
    match secrets.find? fun secret => secret.isPrefixOf (byte :: rest) with
    | some secret => marker ++ redactFrom secrets (secret.length - 1) rest
    | none => byte :: redactFrom secrets 0 rest

def redact (value : List UInt8) (secrets : List (List UInt8)) : List UInt8 :=
  redactFrom (ordered secrets) 0 value

/-- The proper beginnings of secrets that a capture may end with. -/
def candidates (bytes : List UInt8) (secrets : List (List UInt8)) : List (List UInt8) :=
  (secrets.filter fun secret => !secret.isEmpty && !secret.isSuffixOf bytes).flatMap fun secret =>
    (List.range' 1 (secret.length - 1)).map fun n => secret.take n

/-- How much `sanitize` trims from a capture that was cut short. -/
def trim (bytes : List UInt8) (secrets : List (List UInt8)) : Nat :=
  ((((candidates bytes secrets).filter fun start => start.isSuffixOf bytes).map
    List.length).max?).getD 0

/-- The bytes of a capture that `sanitize` redacts. -/
def CapturedBytes.trimmed (captured : CapturedBytes) (secrets : List (List UInt8)) : List UInt8 :=
  if captured.truncated then
    captured.bytes.take (captured.bytes.length - trim captured.bytes secrets)
  else captured.bytes

def sanitize (captured : CapturedBytes) (secrets : List (List UInt8)) : List UInt8 × Bool :=
  let text := redact (fromUtf8Lossy (captured.trimmed secrets)) secrets
  let truncated := captured.truncated || maxDiagnosticBytes < text.length
  (text.take (floorCharBoundary text (min text.length maxDiagnosticBytes)), truncated)

/-! ## The capture -/

/-- What `drain` keeps is the beginning of the output, and it is marked exactly when it is less. -/
theorem drain_captures (retain : Nat) (chunks : List (List UInt8)) (captured : CapturedBytes)
    (hchunks : ∀ chunk ∈ chunks, chunk ≠ []) (hlength : captured.bytes.length ≤ retain) :
    drain retain (chunks.map some) captured =
      { bytes := (captured.bytes ++ chunks.flatten).take retain
        truncated := captured.truncated ||
          retain < (captured.bytes ++ chunks.flatten).length } := by
  induction chunks generalizing captured with
  | nil =>
    have htake : (captured.bytes ++ [].flatten).take retain = captured.bytes := by
      rw [List.flatten_nil, List.append_nil, List.take_of_length_le hlength]
    have hnot : decide (retain < (captured.bytes ++ ([] : List (List UInt8)).flatten).length) =
        false := by
      rw [List.flatten_nil, List.append_nil, decide_eq_false_iff_not]
      omega
    rw [htake, hnot, Bool.or_false]
    rfl
  | cons chunk chunks ih =>
    have hne := hchunks chunk List.mem_cons_self
    have hrest : ∀ other ∈ chunks, other ≠ [] := fun other hother =>
      hchunks other (List.mem_cons_of_mem _ hother)
    obtain ⟨byte, bytes, rfl⟩ := List.exists_cons_of_ne_nil hne
    rw [List.map_cons, drain]
    · rw [List.flatten_cons, ← List.append_assoc]
      by_cases hfits : (byte :: bytes).length ≤ retain - captured.bytes.length
      · have hcount : min (retain - captured.bytes.length) (byte :: bytes).length =
            (byte :: bytes).length := Nat.min_eq_right hfits
        rw [hcount, List.take_length, ih _ hrest]
        · simp
        · rw [List.length_append]
          omega
      · have hcount : min (retain - captured.bytes.length) (byte :: bytes).length =
            retain - captured.bytes.length := Nat.min_eq_left (by omega)
        have hall :
            (captured.bytes ++ (byte :: bytes).take (retain - captured.bytes.length)).length =
              retain := by
          rw [List.length_append, List.length_take]
          omega
        rw [hcount, ih _ hrest (Nat.le_of_eq hall)]
        have hbytes : (captured.bytes ++ (byte :: bytes).take (retain - captured.bytes.length) ++
            chunks.flatten).take retain =
            (captured.bytes ++ (byte :: bytes) ++ chunks.flatten).take retain := by
          rw [List.take_append_of_le_length (Nat.le_of_eq hall.symm), List.take_of_length_le
            (Nat.le_of_eq hall), List.take_append_of_le_length (by rw [List.length_append]; omega),
            List.take_append, List.take_of_length_le hlength]
        have hmarked : decide (retain - captured.bytes.length < (byte :: bytes).length) = true :=
          decide_eq_true (by omega)
        have hmore : decide (retain <
            (captured.bytes ++ (byte :: bytes) ++ chunks.flatten).length) = true :=
          decide_eq_true (by rw [List.length_append, List.length_append]; omega)
        rw [hbytes, hmarked, hmore, Bool.or_true, Bool.true_or]
    · exact hne

/-! ## ASCII texts -/

/-- Every byte is ASCII. -/
def IsAscii (bytes : List UInt8) : Prop := ∀ byte ∈ bytes, byte < 0x80

theorem fromUtf8Lossy_ascii {bytes : List UInt8} (h : IsAscii bytes) :
    fromUtf8Lossy bytes = bytes := by
  rw [fromUtf8Lossy]
  induction bytes with
  | nil => rfl
  | cons byte bytes ih =>
    have hbyte := h byte List.mem_cons_self
    have htail := ih fun other hother => h other (List.mem_cons_of_mem _ hother)
    have hranges : tailRanges byte = some [] := by
      rw [tailRanges, if_pos hbyte]
    rw [fromUtf8LossyFrom, hranges]
    simp [tailLength, htail]

theorem floorCharBoundary_ascii {text : List UInt8} (h : IsAscii text) (boundary : Nat) :
    floorCharBoundary text boundary = boundary := by
  cases boundary with
  | zero => rfl
  | succ boundary =>
    rw [floorCharBoundary, if_pos]
    unfold isCharBoundary
    cases hbyte : text[boundary + 1]? with
    | none => rfl
    | some byte =>
      have hascii := h byte (List.mem_of_getElem? hbyte)
      simp [hascii]

theorem isAscii_marker : IsAscii marker := by
  unfold IsAscii marker
  set_option maxRecDepth 4000 in decide

theorem isAscii_redactFrom {secrets : List (List UInt8)} {value : List UInt8} (h : IsAscii value)
    (skip : Nat) : IsAscii (redactFrom secrets skip value) := by
  induction value generalizing skip with
  | nil => cases skip <;> exact fun _ hc => (by cases hc)
  | cons byte value ih =>
    have htail : IsAscii value := fun other hother => h other (List.mem_cons_of_mem _ hother)
    cases skip with
    | succ skip => exact ih htail skip
    | zero =>
      intro other hother
      rw [redactFrom] at hother
      split at hother
      · rcases List.mem_append.mp hother with hother | hother
        · exact isAscii_marker other hother
        · exact ih htail _ other hother
      · rcases List.mem_cons.mp hother with rfl | hother
        · exact h _ List.mem_cons_self
        · exact ih htail 0 other hother

/-! ## The secrets in order -/

theorem pairwise_orderedInsert {secrets : List (List UInt8)} (secret : List UInt8)
    (h : secrets.Pairwise fun left right => right.length ≤ left.length) :
    (secrets.orderedInsert Precedes secret).Pairwise fun left right =>
      right.length ≤ left.length := by
  induction secrets with
  | nil => exact List.pairwise_singleton _ _
  | cons first secrets ih =>
    rw [List.pairwise_cons] at h
    rw [List.orderedInsert]
    by_cases hprecedes : Precedes secret first
    · have hle : first.length ≤ secret.length := by
        by_contra hlt
        refine hprecedes ?_
        rw [orderSecrets, Nat.compare_eq_gt.mpr (by omega)]
        rfl
      rw [if_pos hprecedes, List.pairwise_cons, List.pairwise_cons]
      refine ⟨fun other hother => ?_, h⟩
      rcases List.mem_cons.mp hother with rfl | hother
      · exact hle
      · exact (h.1 other hother).trans hle
    · have hle : secret.length ≤ first.length := by
        by_contra hlt
        refine hprecedes fun hc => ?_
        rw [orderSecrets, Nat.compare_eq_lt.mpr (by omega)] at hc
        cases hc
      rw [if_neg hprecedes, List.pairwise_cons]
      refine ⟨fun other hother => ?_, ih h.2⟩
      rcases (List.mem_orderedInsert Precedes).mp hother with rfl | hother
      · exact hle
      · exact h.1 other hother

theorem pairwise_sorted (secrets : List (List UInt8)) :
    (secrets.insertionSort Precedes).Pairwise fun left right => right.length ≤ left.length := by
  induction secrets with
  | nil => exact List.Pairwise.nil
  | cons secret secrets ih => exact pairwise_orderedInsert secret ih

theorem dedup_sublist (secrets : List (List UInt8)) : (dedup secrets).Sublist secrets := by
  fun_induction dedup secrets with
  | case1 second rest ih => exact ih.cons second
  | case2 first second rest hne ih => exact ih.cons_cons first
  | case3 secrets => exact List.Sublist.refl _

theorem mem_dedup {secrets : List (List UInt8)} {secret : List UInt8} :
    secret ∈ dedup secrets ↔ secret ∈ secrets := by
  refine ⟨fun h => (dedup_sublist secrets).subset h, fun h => ?_⟩
  fun_induction dedup secrets with
  | case1 second rest ih =>
    refine ih ?_
    rcases List.mem_cons.mp h with rfl | h
    · exact List.mem_cons_self
    · exact h
  | case2 first second rest hne ih =>
    rcases List.mem_cons.mp h with rfl | h
    · exact List.mem_cons_self
    · exact List.mem_cons_of_mem _ (ih h)
  | case3 secrets => exact h

theorem mem_ordered {secrets : List (List UInt8)} {secret : List UInt8} :
    secret ∈ ordered secrets ↔ secret ∈ secrets ∧ secret ≠ [] := by
  rw [ordered, mem_dedup, List.mem_insertionSort, List.mem_filter]
  simp

/-- The length of the secret that `redact` finds in front of a text. -/
def longestSecret (secrets : List (List UInt8)) (value : List UInt8) : Option Nat :=
  ((ordered secrets).find? fun secret => secret.isPrefixOf value).map List.length

theorem isLongest_longestSecret (secrets : List (List UInt8)) :
    IsLongest (longestSecret secrets) secrets := by
  have hsorted : (ordered secrets).Pairwise fun left right => right.length ≤ left.length :=
    (pairwise_sorted _).sublist (dedup_sublist _)
  refine ⟨fun value n hn => ?_, fun value secret hsecret hne hbegins => ?_⟩
  · obtain ⟨secret, hfound, hlength⟩ := Option.map_eq_some_iff.mp hn
    obtain ⟨hmem, hne⟩ := mem_ordered.mp (List.mem_of_find?_eq_some hfound)
    have hfits := List.find?_some hfound
    exact ⟨secret, hmem, hne, List.isPrefixOf_iff_prefix.mp hfits, hlength⟩
  · have hmem := mem_ordered.mpr ⟨hsecret, hne⟩
    have hfits : secret.isPrefixOf value = true := List.isPrefixOf_iff_prefix.mpr hbegins
    cases hfound : (ordered secrets).find? fun secret => secret.isPrefixOf value with
    | none => exact absurd hfits (List.find?_eq_none.mp hfound secret hmem)
    | some first =>
      refine ⟨first.length, by rw [longestSecret, hfound]; rfl, ?_⟩
      obtain ⟨-, front, rest, hsplit, hbefore⟩ := List.find?_eq_some_iff_append.mp hfound
      rw [hsplit] at hmem hsorted
      rcases List.mem_append.mp hmem with hfront | hrest
      · have hnot := hbefore secret hfront
        rw [hfits] at hnot
        cases hnot
      · rcases List.mem_cons.mp hrest with rfl | hrest
        · exact Nat.le_refl _
        · exact (List.pairwise_cons.mp (List.pairwise_append.mp hsorted).2.1).1 secret hrest

/-! ## Where the bytes of the text come from -/

section Origins

variable {secrets : List (List UInt8)} {value output : List UInt8} {captured : CapturedBytes}

/-- The bytes of a piece, each with its position in the output unless it belongs to a marker. -/
def render : Piece UInt8 → List (Option Nat × UInt8)
  | .kept position byte => [(some position, byte)]
  | .marked => marker.map fun byte => (none, byte)

/-- The redacted text with the origin of each byte. -/
def redactOrigins (value : List UInt8) (secrets : List (List UInt8)) : List (Option Nat × UInt8) :=
  (scan (longestSecret secrets) 0 0 value).flatMap render

/-- The text of `sanitize` with the origin of each byte. -/
def shown (captured : CapturedBytes) (secrets : List (List UInt8)) : List (Option Nat × UInt8) :=
  (redactOrigins (captured.trimmed secrets) secrets).take maxDiagnosticBytes

theorem redactFrom_eq_scan (position skip : Nat) :
    redactFrom (ordered secrets) skip value =
      ((scan (longestSecret secrets) position skip value).flatMap render).map Prod.snd := by
  induction value generalizing position skip with
  | nil => cases skip <;> rfl
  | cons byte value ih =>
    cases skip with
    | succ skip => exact ih (position + 1) skip
    | zero =>
      have hmarker : (render .marked).map Prod.snd = marker := by
        rw [render, List.map_map]
        exact List.map_id marker
      rw [redactFrom, scan, longestSecret]
      cases (ordered secrets).find? fun secret => secret.isPrefixOf (byte :: value) with
      | none =>
        simp only [Option.map_none, List.flatMap_cons, List.map_append]
        rw [ih (position + 1) 0]
        rfl
      | some secret =>
        simp only [Option.map_some, List.flatMap_cons, List.map_append, hmarker]
        rw [ih (position + 1) (secret.length - 1)]

theorem redact_eq_origins (value : List UInt8) (secrets : List (List UInt8)) :
    redact value secrets = (redactOrigins value secrets).map Prod.snd := redactFrom_eq_scan 0 0

/-- The bytes of the text are those with an origin and those of markers. -/
theorem sanitize_eq_shown (h : IsAscii (captured.trimmed secrets)) :
    (sanitize captured secrets).1 = (shown captured secrets).map Prod.snd := by
  have hascii : IsAscii (redact (captured.trimmed secrets) secrets) := isAscii_redactFrom h 0
  rw [sanitize, fromUtf8Lossy_ascii h]
  dsimp only
  rw [floorCharBoundary_ascii hascii, shown, List.map_take, ← redact_eq_origins, ← List.take_take]
  exact List.take_of_length_le (List.length_take_le' _ _)

theorem mem_render {piece : Piece UInt8} {k : Nat} {byte : UInt8} :
    (some k, byte) ∈ render piece ↔ piece = .kept k byte := by
  cases piece with
  | kept position other => simp [render, eq_comm]
  | marked => simp [render]

theorem mem_redactOrigins {k : Nat} {byte : UInt8} :
    (some k, byte) ∈ redactOrigins value secrets ↔
      .kept k byte ∈ scan (longestSecret secrets) 0 0 value := by
  rw [redactOrigins, List.mem_flatMap]
  constructor
  · rintro ⟨piece, hpiece, hrender⟩
    exact mem_render.mp hrender ▸ hpiece
  · exact fun hkept => ⟨_, hkept, mem_render.mpr rfl⟩

/-- A byte no secret covers comes right after the redaction of what stands before it. -/
theorem redactOrigins_split {k : Nat} {byte : UInt8} (hbyte : value[k]? = some byte)
    (hfree : ¬ Covered secrets value k) :
    ∃ rest, redactOrigins value secrets =
      redactOrigins (value.take k) secrets ++ (some k, byte) :: rest := by
  obtain ⟨hlt, hget⟩ := List.getElem?_eq_some_iff.mp hbyte
  have hlength : (value.take k).length = k := List.length_take_of_le (Nat.le_of_lt hlt)
  have huncrossed : Uncrossed secrets (value.take k ++ value.drop k) (value.take k).length := by
    rw [List.take_append_drop, hlength]
    intro secret hsecret i hoccurs hi
    by_contra hover
    exact hfree ⟨secret, hsecret, i, hoccurs, Nat.le_of_lt hi, by omega⟩
  have hdrop : value.drop k = byte :: value.drop (k + 1) := by
    rw [List.drop_eq_getElem_cons hlt, hget]
  have hnone : longestSecret secrets (byte :: value.drop (k + 1)) = none := by
    cases hfound : longestSecret secrets (byte :: value.drop (k + 1)) with
    | none => rfl
    | some n =>
      obtain ⟨secret, hsecret, hne, hbegins, -⟩ :=
        (isLongest_longestSecret secrets).word _ n hfound
      rw [← hdrop] at hbegins
      have hpositive : 0 < secret.length := List.length_pos_iff.mpr hne
      exact absurd ⟨secret, hsecret, k, hbegins, Nat.le_refl _, by omega⟩ hfree
  have hscan := scan_append (isLongest_longestSecret secrets) 0 0 huncrossed (Nat.zero_le _)
  rw [List.take_append_drop, hlength, Nat.zero_add, hdrop] at hscan
  refine ⟨(scan (longestSecret secrets) (k + 1) 0 (value.drop (k + 1))).flatMap render, ?_⟩
  rw [redactOrigins, hscan, List.flatMap_append, redactOrigins]
  refine congrArg _ ?_
  rw [scan, hnone]
  rfl

/-- A byte no secret covers is shown exactly when what stands before it leaves room. -/
theorem mem_take_redactOrigins {bound k : Nat} {byte : UInt8} (hbyte : value[k]? = some byte)
    (hfree : ¬ Covered secrets value k) :
    (some k, byte) ∈ (redactOrigins value secrets).take bound ↔
      (redact (value.take k) secrets).length < bound := by
  obtain ⟨rest, hsplit⟩ := redactOrigins_split hbyte hfree
  have hlength : (redact (value.take k) secrets).length =
      (redactOrigins (value.take k) secrets).length := by
    rw [redact_eq_origins, List.length_map]
  rw [hsplit, hlength, List.take_append, List.mem_append]
  constructor
  · rintro (hin | hin)
    · have hkept := mem_redactOrigins.mp (List.mem_of_mem_take hin)
      have hbounds := kept_bounds hkept
      rw [List.length_take] at hbounds
      omega
    · by_contra hle
      rw [Nat.sub_eq_zero_of_le (Nat.le_of_not_lt hle)] at hin
      cases hin
  · intro hlt
    obtain ⟨room, hroom⟩ := Nat.exists_eq_add_of_lt hlt
    refine .inr ?_
    rw [show bound - (redactOrigins (value.take k) secrets).length = room + 1 by omega]
    exact List.mem_cons_self

end Origins

/-! ## The trim -/

section Trim

variable {secrets : List (List UInt8)} {bytes output : List UInt8}

/-- The trim takes every proper beginning of a secret that the capture ends with, unless it ends
with the whole secret. -/
theorem le_trim {secret : List UInt8} {n : Nat} (hsecret : secret ∈ secrets) (hpositive : 0 < n)
    (hlt : n < secret.length) (hnot : ¬ secret <:+ bytes) (hends : secret.take n <:+ bytes) :
    n ≤ trim bytes secrets := by
  have hne : secret ≠ [] := List.length_pos_iff.mp (by omega)
  have hcandidate : secret.take n ∈ candidates bytes secrets := by
    rw [candidates, List.mem_flatMap]
    refine ⟨secret, ?_, ?_⟩
    · rw [List.mem_filter]
      refine ⟨hsecret, ?_⟩
      have hsuffix : secret.isSuffixOf bytes = false :=
        Bool.eq_false_iff.mpr fun hc => hnot (List.isSuffixOf_iff_suffix.mp hc)
      simp [hne, hsuffix]
    · rw [List.mem_map]
      exact ⟨n, List.mem_range'_1.mpr (by omega), rfl⟩
  have hmem : n ∈ ((candidates bytes secrets).filter fun start =>
      start.isSuffixOf bytes).map List.length := by
    rw [List.mem_map]
    refine ⟨secret.take n, ?_, List.length_take_of_le (Nat.le_of_lt hlt)⟩
    rw [List.mem_filter]
    exact ⟨hcandidate, List.isSuffixOf_iff_suffix.mpr hends⟩
  rw [trim]
  cases hmax : (((candidates bytes secrets).filter fun start =>
      start.isSuffixOf bytes).map List.length).max? with
  | none =>
    rw [List.max?_eq_none_iff] at hmax
    rw [hmax] at hmem
    cases hmem
  | some m =>
    have hle := List.le_max?_get_of_mem hmem
    simp only [hmax, Option.get_some] at hle
    exact hle

/-- A secret that straddles the end of the capture starts at the trim point or after it. -/
theorem trim_le_of_straddles (hbegins : bytes <+: output) (hnested : Nested secrets output)
    {secret : List UInt8} {i : Nat} (hsecret : secret ∈ secrets)
    (hoccurs : OccursAt secret output i)
    (hstart : i < bytes.length) (hend : bytes.length < i + secret.length) :
    bytes.length - trim bytes secrets ≤ i := by
  have hbytes : bytes = output.take bytes.length := List.prefix_iff_eq_take.mp hbegins
  have hsuffix : secret.take (bytes.length - i) <:+ bytes := by
    have hdrop : bytes.drop i = secret.take (bytes.length - i) := by
      conv_lhs => rw [hbytes]
      rw [List.drop_take]
      obtain ⟨rest, hrest⟩ := hoccurs
      rw [← hrest, List.take_append_of_le_length (by omega)]
    rw [← hdrop]
    exact List.drop_suffix i bytes
  by_cases hwhole : secret <:+ bytes
  · -- two overlapping occurrences of one secret, neither of which contains the other
    have hlength := hwhole.length_le
    have hat : OccursAt secret output (bytes.length - secret.length) := by
      have hin : OccursAt secret bytes (bytes.length - secret.length) := by
        have hdrop := List.suffix_iff_eq_drop.mp hwhole
        exact ⟨[], (List.append_nil secret).trans hdrop⟩
      rw [hbytes] at hin
      have hin := hin.of_take
      rwa [← hbytes] at hin
    rcases hnested secret hsecret secret hsecret i (bytes.length - secret.length) hoccurs hat
      (by omega) (by omega) with hcontains | hcontains
    · omega
    · omega
  · have hle := le_trim hsecret (by omega) (by omega) hwhole hsuffix
    omega

end Trim

/-! ## What the text shows -/

section Hiding

variable {secrets : List (List UInt8)} {output : List UInt8} {captured : CapturedBytes}

/-- The text shows no byte that belongs to a secret of the complete output. -/
def Hidden (output : List UInt8) (captured : CapturedBytes) (secrets : List (List UInt8)) : Prop :=
  ∀ k byte, (some k, byte) ∈ shown captured secrets → ¬ Covered secrets output k

/-- The trim ends inside a complete secret of the capture and leaves a byte of it that no other
complete secret covers, within the bound of the text. -/
def CutsInto (captured : CapturedBytes) (secrets : List (List UInt8)) : Prop :=
  ∃ secret ∈ secrets, ∃ i, OccursAt secret captured.bytes i ∧
    i < (captured.trimmed secrets).length ∧ (captured.trimmed secrets).length < i + secret.length ∧
    ∃ k, i ≤ k ∧ k < (captured.trimmed secrets).length ∧
      ¬ Covered secrets (captured.trimmed secrets) k ∧
      (redact (captured.bytes.take k) secrets).length < maxDiagnosticBytes

theorem trimmed_eq_take (captured : CapturedBytes) (secrets : List (List UInt8)) :
    captured.trimmed secrets = captured.bytes.take (captured.trimmed secrets).length := by
  have hbegins : captured.trimmed secrets <+: captured.bytes := by
    unfold CapturedBytes.trimmed
    split
    · exact List.take_prefix _ _
    · exact List.prefix_refl _
  exact List.prefix_iff_eq_take.mp hbegins

theorem complete_of_crosses (hbegins : captured.bytes <+: output)
    (htruncated : captured.truncated = decide (captured.bytes ≠ output))
    (hnested : Nested secrets output) {secret : List UInt8} {i : Nat} (hsecret : secret ∈ secrets)
    (hoccurs : OccursAt secret output i) (hstart : i < (captured.trimmed secrets).length)
    (hend : (captured.trimmed secrets).length < i + secret.length) :
    OccursAt secret captured.bytes i := by
  have hne : secret ≠ [] := List.length_pos_iff.mp (by omega)
  have hbytes : captured.bytes = output.take captured.bytes.length :=
    List.prefix_iff_eq_take.mp hbegins
  have hwithin : i + secret.length ≤ captured.bytes.length := by
    by_cases hsame : captured.bytes = output
    · rw [hsame]
      exact hoccurs.le_length hne
    · have hlength : (captured.trimmed secrets).length =
          captured.bytes.length - trim captured.bytes secrets := by
        have hcut : captured.truncated = true := by simp [htruncated, hsame]
        rw [CapturedBytes.trimmed, if_pos hcut, List.length_take]
        omega
      by_contra hover
      have hle := trim_le_of_straddles hbegins hnested hsecret hoccurs (by omega) (by omega)
      omega
  rw [hbytes]
  exact hoccurs.take hwithin

theorem hidden_iff (hbegins : captured.bytes <+: output)
    (htruncated : captured.truncated = decide (captured.bytes ≠ output))
    (hnested : Nested secrets output) :
    Hidden output captured secrets ↔ ¬ CutsInto captured secrets := by
  have htake := trimmed_eq_take captured secrets
  have hbytes : captured.bytes = output.take captured.bytes.length :=
    List.prefix_iff_eq_take.mp hbegins
  have hle : (captured.trimmed secrets).length ≤ captured.bytes.length := by
    rw [htake, List.length_take]
    exact Nat.min_le_right _ _
  have hbegin : captured.trimmed secrets = output.take (captured.trimmed secrets).length := by
    conv_lhs => rw [htake, hbytes]
    rw [List.take_take, Nat.min_eq_left hle]
  have hnested' : Nested secrets (captured.trimmed secrets) := hbegin ▸ hnested.take _
  have hfront : ∀ k, k ≤ (captured.trimmed secrets).length →
      (captured.trimmed secrets).take k = captured.bytes.take k := by
    intro k hk
    conv_lhs => rw [htake]
    rw [List.take_take, Nat.min_eq_left hk]
  constructor
  · rintro hhidden ⟨secret, hsecret, i, hoccurs, hstart, hend, k, hik, hk, hfree, hroom⟩
    have hbyte : (captured.trimmed secrets)[k]? = some (captured.trimmed secrets)[k] :=
      List.getElem?_eq_getElem hk
    refine hhidden k _ ((mem_take_redactOrigins hbyte hfree).mpr ?_)
      ⟨secret, hsecret, i, ?_, hik, by omega⟩
    · rwa [hfront k (Nat.le_of_lt hk)]
    · rw [hbytes] at hoccurs
      exact hoccurs.of_take
  · intro hcuts k byte hshown hcovered
    have hkept := mem_redactOrigins.mp (List.mem_of_mem_take hshown)
    obtain ⟨hbyte, hfree⟩ :=
      (mem_scan_iff hnested' (isLongest_longestSecret secrets) k byte).mp hkept
    obtain ⟨hk, -⟩ := List.getElem?_eq_some_iff.mp hbyte
    have hroom := (mem_take_redactOrigins hbyte hfree).mp hshown
    obtain ⟨secret, hsecret, i, hoccurs, hik, hki⟩ := hcovered
    by_cases hwithin : i + secret.length ≤ (captured.trimmed secrets).length
    · refine hfree ⟨secret, hsecret, i, ?_, hik, hki⟩
      rw [hbegin]
      exact hoccurs.take hwithin
    · refine hcuts ⟨secret, hsecret, i, ?_, by omega, by omega, k, hik, hk, hfree, ?_⟩
      · exact complete_of_crosses hbegins htruncated hnested hsecret hoccurs (by omega) (by omega)
      · rwa [hfront k (Nat.le_of_lt hk)] at hroom

end Hiding

/-- **Diagnostics show no part of a secret, exactly when the trim cuts into none.** For every ASCII
output, every beginning of it captured with `truncated` set when it is cut short, and all secrets
whose occurrences overlap only by containment: the text is within its bound, its bytes are those of
markers and bytes of the capture, and none of the latter belongs to a secret if and only if the trim
does not end inside a complete secret. -/
theorem sanitize_hides_iff (output : List UInt8) (captured : CapturedBytes)
    (secrets : List (List UInt8)) (hascii : IsAscii output) (hbegins : captured.bytes <+: output)
    (htruncated : captured.truncated = decide (captured.bytes ≠ output))
    (hnested : Nested secrets output) :
    (sanitize captured secrets).1.length ≤ maxDiagnosticBytes ∧
    (sanitize captured secrets).1 = (shown captured secrets).map Prod.snd ∧
    (Hidden output captured secrets ↔ ¬ CutsInto captured secrets) := by
  have htrimmed : IsAscii (captured.trimmed secrets) := by
    intro byte hbyte
    rw [trimmed_eq_take] at hbyte
    exact hascii byte (hbegins.subset (List.mem_of_mem_take hbyte))
  have htext := sanitize_eq_shown htrimmed
  refine ⟨?_, htext, hidden_iff hbegins htruncated hnested⟩
  rw [htext, List.length_map, shown]
  exact List.length_take_le _ _

namespace Sample

/-- `ghp_e`, and its basic credential. -/
def token : List UInt8 := [0x67, 0x68, 0x70, 0x5F, 0x65]

/-- `eC1hY2Nlc3MtdG9rZW46Z2hwX2U=`, the base64 form of `x-access-token:ghp_e`. -/
def credential : List UInt8 :=
  [0x65, 0x43, 0x31, 0x68, 0x59, 0x32, 0x4E, 0x6C, 0x63, 0x33, 0x4D, 0x74, 0x64, 0x47, 0x39, 0x72,
    0x5A, 0x57, 0x34, 0x36, 0x5A, 0x32, 0x68, 0x77, 0x58, 0x32, 0x55, 0x3D]

end Sample

open Sample in
/-- A capture that ends with a whole token, cut short before the end of its line: the token ends
with the letter its credential begins with, so the trim takes that letter, and the rest of the token
is shown. -/
theorem sanitize_shows_token :
    IsAscii (token ++ [0x0A]) ∧ token <+: token ++ [0x0A] ∧
      Nested [credential, token] (token ++ [0x0A]) ∧
      (sanitize ⟨token, true⟩ [credential, token]).1 = [0x67, 0x68, 0x70, 0x5F] ∧
      ¬ Hidden (token ++ [0x0A]) ⟨token, true⟩ [credential, token] := by
  have hascii : ∀ byte ∈ token ++ [0x0A], byte < 0x80 := by
    set_option maxRecDepth 4000 in decide
  have hshown : (some 0, 0x67) ∈ shown ⟨token, true⟩ [credential, token] := by decide
  refine ⟨hascii, List.prefix_append _ _, nested_of_lt (by decide) (by decide),
    by decide, fun hhidden => ?_⟩
  exact hhidden 0 0x67 hshown
    ⟨token, by decide, 0, List.prefix_append _ _, Nat.le_refl _, by decide⟩

open Sample in
/-- A capture that ends inside the credential: what the trim leaves of the token is redacted. -/
theorem sanitize_hides_iff_straddling :
    (sanitize ⟨token ++ [0x20] ++ credential.take 9, true⟩ [credential, token]).1 =
        marker ++ [0x20] ∧
      Hidden (token ++ [0x20] ++ credential) ⟨token ++ [0x20] ++ credential.take 9, true⟩
        [credential, token] := by
  have hascii : ∀ byte ∈ token ++ [0x20] ++ credential, byte < 0x80 := by
    set_option maxRecDepth 4000 in decide
  have hends : ∀ secret ∈ [credential, token], ∀ i < 6,
      OccursAt secret (token ++ [0x20] ++ credential.take 9) i → i + secret.length ≤ 6 := by
    decide
  have hlength : (CapturedBytes.trimmed ⟨token ++ [0x20] ++ credential.take 9, true⟩
      [credential, token]).length = 6 := by decide
  have hiff := (sanitize_hides_iff (token ++ [0x20] ++ credential)
    ⟨token ++ [0x20] ++ credential.take 9, true⟩ [credential, token] hascii (by decide)
    (by decide) (nested_of_lt (by decide) (by decide))).2.2
  refine ⟨by decide, hiff.mpr ?_⟩
  rintro ⟨secret, hsecret, i, hoccurs, hstart, hend, -⟩
  rw [hlength] at hstart hend
  have hle := hends secret hsecret i hstart hoccurs
  omega

end Zeroshot.Redaction
