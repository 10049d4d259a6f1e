import Mathlib.Data.Multiset.Sort
import Mathlib.Data.Nat.Choose.Basic
import Mathlib.Data.List.Sort

set_option autoImplicit false

/-!
# Walking successors, and multisets as nondecreasing sequences

`visitAll visit` visits the elements of a list until one visit asks to stop. A list is `Chained` by
a successor function when each element but the last is followed by its successor and the last has
none; following successors from its head then visits exactly the list.

`sequences choices length low` lists the nondecreasing sequences of a length over `choices` numbers
from `low` on. Each multiset of these numbers is one of them (`mem_map_coe_sequencesUpTo`), and
there are `Nat.multichoose` many (`length_sequences`).
-/

namespace Zeroshot

/-! ## Visiting -/

section Visiting

variable {α σ : Type}

/-- Visit the elements until one visit asks to stop. -/
def visitAll (visit : σ → α → σ × Bool) : List α → σ → σ × Bool
  | [], state => (state, true)
  | a :: as, state =>
    match visit state a with
    | (state, false) => (state, false)
    | (state, true) => visitAll visit as state

theorem visitAll_append (visit : σ → α → σ × Bool) (first second : List α) (state : σ) :
    visitAll visit (first ++ second) state =
      match visitAll visit first state with
      | (state, false) => (state, false)
      | (state, true) => visitAll visit second state := by
  induction first generalizing state with
  | nil => rfl
  | cons a first ih =>
    rw [List.cons_append, visitAll, visitAll]
    cases hvisit : visit state a with
    | mk next more => cases more <;> simp [ih]

/-- Each element is followed by its successor, and the last has none. -/
def Chained (next : α → Option α) : List α → Prop
  | [] => True
  | [a] => next a = none
  | a :: b :: rest => next a = some b ∧ Chained next (b :: rest)

theorem Chained.tail {next : α → Option α} {a : α} {as : List α} (h : Chained next (a :: as)) :
    Chained next as := by
  cases as with
  | nil => exact trivial
  | cons b as => exact h.2

/-- Two chains, the second starting with the successor of the end of the first. -/
theorem Chained.append {next next' : α → Option α} {first second : List α}
    (hfirst : Chained next first) (hsecond : Chained next' second)
    (hsame : ∀ a ∈ first, ∀ b, next a = some b → next' a = some b)
    (hlink : ∀ a ∈ first, next a = none → next' a = second.head?) :
    Chained next' (first ++ second) := by
  induction first with
  | nil => exact hsecond
  | cons a first ih =>
    have ih := ih hfirst.tail (fun b hb => hsame b (List.mem_cons_of_mem _ hb))
      fun b hb => hlink b (List.mem_cons_of_mem _ hb)
    cases first with
    | nil =>
      have ha := hlink a List.mem_cons_self hfirst
      cases second with
      | nil => exact ha
      | cons b second => exact ⟨ha, hsecond⟩
    | cons b first => exact ⟨hsame a List.mem_cons_self b hfirst.1, ih⟩

theorem Chained.map {β : Type} {next : α → Option α} {next' : β → Option β} {f : α → β}
    {as : List α} (h : Chained next as) (hnext : ∀ a ∈ as, next' (f a) = (next a).map f) :
    Chained next' (as.map f) := by
  induction as with
  | nil => exact trivial
  | cons a as ih =>
    have ih := ih h.tail fun b hb => hnext b (List.mem_cons_of_mem _ hb)
    have ha := hnext a List.mem_cons_self
    cases as with
    | nil =>
      change next' (f a) = none
      rw [ha, show next a = none from h]
      rfl
    | cons b as =>
      refine ⟨?_, ih⟩
      rw [ha, h.1]
      rfl

end Visiting

/-! ## Nondecreasing sequences -/

/-- The nondecreasing sequences of a length over `choices` numbers from `low` on. -/
def sequences : Nat → Nat → Nat → List (List Nat)
  | _, 0, _ => [[]]
  | 0, _ + 1, _ => []
  | choices + 1, length + 1, low =>
    (sequences (choices + 1) length low).map (low :: ·) ++ sequences choices (length + 1) (low + 1)
  termination_by choices length => choices + length

theorem sequences_zero (choices low : Nat) : sequences choices 0 low = [[]] := by
  cases choices <;> simp [sequences]

/-- **There are as many as multisets.** -/
theorem length_sequences (choices length low : Nat) :
    (sequences choices length low).length = choices.multichoose length := by
  induction choices, length, low using sequences.induct with
  | case1 choices low => simp [sequences_zero]
  | case2 length low => simp [sequences]
  | case3 choices length low ihlow ihabove =>
    rw [sequences, List.length_append, List.length_map, ihlow, ihabove, Nat.multichoose_succ_succ,
      Nat.add_comm]

/-- They are the sorted lists of that length over these numbers. -/
theorem mem_sequences {choices length low : Nat} {indexes : List Nat} :
    indexes ∈ sequences choices length low ↔ indexes.length = length ∧
      indexes.Pairwise (· ≤ ·) ∧ ∀ i ∈ indexes, low ≤ i ∧ i < low + choices := by
  induction choices, length, low using sequences.induct generalizing indexes with
  | case1 choices low =>
    rw [sequences_zero, List.mem_singleton, List.length_eq_zero_iff]
    constructor
    · rintro rfl
      simp
    · exact fun h => h.1
  | case2 length low =>
    rw [sequences]
    constructor
    · exact fun h => absurd h List.not_mem_nil
    · rintro ⟨hlength, -, hbounds⟩
      have hmem := List.getElem_mem (l := indexes) (n := 0) (by omega)
      have := hbounds _ hmem
      omega
  | case3 choices length low ihlow ihabove =>
    rw [sequences, List.mem_append, List.mem_map, ihabove]
    constructor
    · rintro (⟨rest, hrest, rfl⟩ | ⟨hlength, hsorted, hbounds⟩)
      · obtain ⟨hlength, hsorted, hbounds⟩ := ihlow.mp hrest
        refine ⟨by rw [List.length_cons, hlength], ?_, ?_⟩
        · exact List.pairwise_cons.mpr ⟨fun i hi => (hbounds i hi).1, hsorted⟩
        · refine List.forall_mem_cons.mpr ⟨by omega, hbounds⟩
      · refine ⟨hlength, hsorted, fun i hi => ?_⟩
        have := hbounds i hi
        omega
    · rintro ⟨hlength, hsorted, hbounds⟩
      cases indexes with
      | nil => cases hlength
      | cons i rest =>
        obtain ⟨hle, hsorted'⟩ := List.pairwise_cons.mp hsorted
        obtain ⟨hi, hrest⟩ := List.forall_mem_cons.mp hbounds
        by_cases hlow : i = low
        · subst hlow
          exact .inl ⟨rest, ihlow.mpr ⟨Nat.succ.inj hlength, hsorted', hrest⟩, rfl⟩
        · -- The first index is the least, so every index lies above `low`.
          refine .inr ⟨hlength, hsorted, List.forall_mem_cons.mpr ⟨by omega, fun j hj => ?_⟩⟩
          have hij := hle j hj
          have hj := hrest j hj
          omega

theorem nodup_sequences (choices length low : Nat) : (sequences choices length low).Nodup := by
  induction choices, length, low using sequences.induct with
  | case1 choices low => simp [sequences_zero]
  | case2 length low => simp [sequences]
  | case3 choices length low ihlow ihabove =>
    rw [sequences]
    refine List.Nodup.append (ihlow.map fun a b h => List.tail_eq_of_cons_eq h) ihabove ?_
    intro indexes hlow habove
    obtain ⟨rest, -, rfl⟩ := List.mem_map.mp hlow
    obtain ⟨-, -, hbounds⟩ := mem_sequences.mp habove
    have := hbounds low List.mem_cons_self
    omega

/-! ## Multisets -/

/-- All nondecreasing sequences of at most `maximum` of the numbers below `choices`. -/
def sequencesUpTo (choices maximum : Nat) : List (List Nat) :=
  (List.range (maximum + 1)).flatMap fun length => sequences choices length 0

theorem mem_sequencesUpTo {choices maximum : Nat} {indexes : List Nat} :
    indexes ∈ sequencesUpTo choices maximum ↔ indexes.length ≤ maximum ∧
      indexes.Pairwise (· ≤ ·) ∧ ∀ i ∈ indexes, i < choices := by
  simp only [sequencesUpTo, List.mem_flatMap, List.mem_range, mem_sequences, Nat.zero_le, true_and,
    Nat.zero_add]
  constructor
  · rintro ⟨length, hlt, hlength, hrest⟩
    exact ⟨by omega, hrest⟩
  · rintro ⟨hlength, hrest⟩
    exact ⟨indexes.length, by omega, rfl, hrest⟩

theorem nodup_sequencesUpTo (choices maximum : Nat) : (sequencesUpTo choices maximum).Nodup := by
  rw [sequencesUpTo, List.nodup_flatMap]
  refine ⟨fun length _ => nodup_sequences choices length 0, ?_⟩
  refine List.Pairwise.imp_of_mem ?_ List.nodup_range
  intro a b _ _ hne indexes ha hb
  exact hne ((mem_sequences.mp ha).1.symm.trans (mem_sequences.mp hb).1)

/-- **The sequences are the multisets of at most `maximum` numbers below `choices`.** -/
theorem mem_map_coe_sequencesUpTo {choices maximum : Nat} {s : Multiset Nat} :
    s ∈ (sequencesUpTo choices maximum).map Multiset.ofList ↔
      s.card ≤ maximum ∧ ∀ i ∈ s, i < choices := by
  rw [List.mem_map]
  constructor
  · rintro ⟨indexes, hindexes, rfl⟩
    obtain ⟨hlength, -, hbounds⟩ := mem_sequencesUpTo.mp hindexes
    exact ⟨hlength, hbounds⟩
  · rintro ⟨hcard, hbounds⟩
    refine ⟨s.sort (· ≤ ·), mem_sequencesUpTo.mpr ⟨?_, ?_, ?_⟩, Multiset.sort_eq s _⟩
    · rwa [Multiset.length_sort]
    · exact Multiset.pairwise_sort s _
    · exact fun i hi => hbounds i ((Multiset.mem_sort _).mp hi)

theorem length_sequencesUpTo (choices maximum : Nat) :
    (sequencesUpTo choices maximum).length = (maximum + choices).choose choices := by
  induction maximum with
  | zero => simp [sequencesUpTo, sequences_zero]
  | succ maximum ih =>
    have hsplit : (sequencesUpTo choices (maximum + 1)).length =
        (sequencesUpTo choices maximum).length + choices.multichoose (maximum + 1) := by
      rw [sequencesUpTo, List.range_succ, List.flatMap_append, List.length_append,
        List.flatMap_singleton, length_sequences]
      rfl
    rw [hsplit, ih, Nat.multichoose_eq]
    have hsymm : (maximum + choices).choose choices = (maximum + choices).choose maximum := by
      rw [← Nat.choose_symm_add, Nat.add_comm]
    have hsymm' : (maximum + 1 + choices).choose choices =
        (maximum + choices + 1).choose (maximum + 1) := by
      rw [← Nat.choose_symm_add, Nat.add_right_comm]
    rw [hsymm', hsymm, Nat.choose_succ_succ]
    congr 2
    omega

end Zeroshot
