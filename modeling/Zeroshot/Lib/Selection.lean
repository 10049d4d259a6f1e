import Mathlib.Data.List.Basic
import Mathlib.Data.List.Infix
import Mathlib.Data.List.Range

set_option autoImplicit false

/-!
# Selections by position

`selection f k n` lists what `f` gives at the positions `k, …, k + n - 1`, in order. A reader that
filters a growing list position by position has read a selection; two selections that meet make one,
and what has been handed out of a selection so far is itself a selection, up to the position of its
last element.
-/

namespace Zeroshot

variable {β : Type} {f g : Nat → Option β}

def selection (f : Nat → Option β) (k n : Nat) : List β := (List.range' k n).filterMap f

@[simp] theorem selection_zero (k : Nat) : selection f k 0 = [] := rfl

theorem selection_add (k n m : Nat) :
    selection f k (n + m) = selection f k n ++ selection f (k + n) m := by
  unfold selection
  rw [← List.filterMap_append, List.range'_append_1]

theorem selection_succ (k n : Nat) :
    selection f k (n + 1) = selection f k n ++ (f (k + n)).toList := by
  rw [selection_add]
  cases h : f (k + n) <;> simp [selection, List.range', h]

theorem selection_one_add (k n : Nat) :
    selection f k (n + 1) = (f k).toList ++ selection f (k + 1) n := by
  rw [Nat.add_comm n 1, selection_add]
  cases h : f k <;> simp [selection, List.range', h]

theorem selection_congr {k n : Nat} (h : ∀ i, k ≤ i → i < k + n → f i = g i) :
    selection f k n = selection g k n := by
  unfold selection
  refine List.filterMap_congr fun i hi => ?_
  rw [List.mem_range'_1] at hi
  exact h i hi.1 hi.2

theorem selection_eq_nil {k n : Nat} (h : ∀ i, k ≤ i → i < k + n → f i = none) :
    selection f k n = [] := by
  unfold selection
  rw [List.filterMap_eq_nil_iff]
  intro i hi
  rw [List.mem_range'_1] at hi
  exact h i hi.1 hi.2

theorem selection_initial (k : Nat) {n m : Nat} (h : n ≤ m) :
    selection f k n <+: selection f k m := by
  obtain ⟨d, rfl⟩ := Nat.exists_eq_add_of_le h
  exact ⟨selection f (k + n) d, (selection_add k n d).symm⟩

/-- What comes first of a selection is a selection, up to the position of its last element. -/
theorem prefix_selection {n : Nat} {front : List β} (h : front <+: selection f 0 n) :
    front = [] ∨ ∃ j < n, ∃ b, f j = some b ∧ front.getLast? = some b ∧
      front = selection f 0 (j + 1) := by
  induction n with
  | zero => exact .inl (List.prefix_nil.mp h)
  | succ n ih =>
    rw [selection_succ, Nat.zero_add] at h
    cases hf : f n with
    | none =>
      rw [hf, Option.toList_none, List.append_nil] at h
      rcases ih h with hnil | ⟨j, hj, hrest⟩
      · exact .inl hnil
      · exact .inr ⟨j, Nat.lt_succ_of_lt hj, hrest⟩
    | some b =>
      rw [hf, Option.toList_some, List.prefix_concat_iff] at h
      rcases h with heq | h
      · refine .inr ⟨n, Nat.lt_succ_self n, b, hf, by simp [heq], ?_⟩
        rw [heq, selection_succ, Nat.zero_add, hf]
        rfl
      · rcases ih h with hnil | ⟨j, hj, hrest⟩
        · exact .inl hnil
        · exact .inr ⟨j, Nat.lt_succ_of_lt hj, hrest⟩

end Zeroshot
