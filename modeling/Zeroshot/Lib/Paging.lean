import Mathlib.Algebra.GroupWithZero.Nat
import Mathlib.Data.List.Basic
import Mathlib.Order.Basic

set_option autoImplicit false

/-!
# Pages

A page of a list is its longest start within a number of items and a budget of sizes. When every
item fits an empty page, a page of a list that is not empty has an item, so reading page after page
reads the whole list. `page_append_length` says when a page stops before what was appended.
-/

namespace Zeroshot

variable {α : Type} (size : α → Nat) (budget : Nat)

/-- The longest start that fits what is left of the budget. -/
def fill : List α → Nat → List α
  | [], _ => []
  | a :: as, used => if budget < used + size a then [] else a :: fill as (used + size a)

/-- At most `limit` items within the budget. -/
def page (limit : Nat) (as : List α) : List α := fill size budget (as.take limit) 0

/-- The size of all items. -/
def totalSize (as : List α) : Nat := (as.map size).sum

variable {size budget}

theorem fill_isPrefix (as : List α) (used : Nat) : fill size budget as used <+: as := by
  induction as generalizing used with
  | nil => exact List.prefix_rfl
  | cons a as ih =>
    rw [fill]
    split
    · exact List.nil_prefix
    · exact (List.prefix_cons_inj a).mpr (ih _)

theorem fill_total (as : List α) {used : Nat} (h : used ≤ budget) :
    used + totalSize size (fill size budget as used) ≤ budget := by
  induction as generalizing used with
  | nil => exact h
  | cons a as ih =>
    rw [fill]
    split
    · exact h
    · rename_i hfits
      have := ih (Nat.not_lt.mp hfits)
      rw [totalSize, List.map_cons, List.sum_cons]
      rw [totalSize] at this
      omega

theorem fill_append_of_total {as bs : List α} {used : Nat}
    (h : used + totalSize size as ≤ budget) :
    fill size budget (as ++ bs) used = as ++ fill size budget bs (used + totalSize size as) := by
  induction as generalizing used with
  | nil => rfl
  | cons a as ih =>
    rw [totalSize, List.map_cons, List.sum_cons] at h ⊢
    rw [List.cons_append, fill, if_neg (by omega), ih (by rw [totalSize]; omega),
      List.cons_append, totalSize, Nat.add_assoc]

/-- What comes after a total beyond the budget is not reached. -/
theorem fill_length_of_total {as : List α} (bs : List α) {used : Nat}
    (h : budget < used + totalSize size as) :
    (fill size budget (as ++ bs) used).length ≤ as.length := by
  induction as generalizing used with
  | nil =>
    cases bs with
    | nil => exact Nat.le_refl _
    | cons b bs =>
      have hover : budget < used + size b := by
        rw [totalSize, List.map_nil, List.sum_nil] at h
        omega
      simp [fill, hover]
  | cons a as ih =>
    rw [List.cons_append, fill]
    split
    · exact Nat.zero_le _
    · rw [totalSize, List.map_cons, List.sum_cons] at h
      rw [List.length_cons, List.length_cons]
      have := @ih (used + size a) (by rw [totalSize]; omega)
      omega

theorem page_isPrefix (limit : Nat) (as : List α) : page size budget limit as <+: as :=
  (fill_isPrefix _ _).trans (List.take_prefix limit as)

theorem page_length (limit : Nat) (as : List α) : (page size budget limit as).length ≤ limit := by
  have h : page size budget limit as <+: as.take limit := fill_isPrefix _ _
  exact Nat.le_trans h.length_le (List.length_take_le _ _)

theorem page_total (limit : Nat) (as : List α) :
    totalSize size (page size budget limit as) ≤ budget := by
  have h := @fill_total α size budget (as.take limit) 0 (Nat.zero_le budget)
  rwa [Nat.zero_add] at h

/-- A page makes progress when its first item fits. -/
theorem page_ne_nil {limit : Nat} (hlimit : 0 < limit) {a : α} {as : List α}
    (h : size a ≤ budget) : page size budget limit (a :: as) ≠ [] := by
  obtain ⟨k, rfl⟩ : ∃ k, limit = k + 1 := ⟨limit - 1, by omega⟩
  rw [page, List.take_succ_cons, fill, if_neg (by omega)]
  exact List.cons_ne_nil _ _

/-- A page of an extended list stays within the old part exactly when the old part is long enough,
or leaves too little of the budget. -/
theorem page_append_length {limit : Nat} (as : List α) (b : α) (bs : List α) :
    (page size budget limit (as ++ b :: bs)).length ≤ as.length ↔
      limit ≤ as.length ∨ budget < totalSize size as + size b := by
  by_cases hlong : limit ≤ as.length
  · refine iff_of_true ?_ (.inl hlong)
    exact Nat.le_trans (page_length limit _) hlong
  · obtain ⟨k, hk⟩ : ∃ k, limit = as.length + (k + 1) := ⟨limit - as.length - 1, by omega⟩
    have htake : (as ++ b :: bs).take limit = as ++ b :: bs.take k := by
      rw [hk, List.take_length_add_append, List.take_succ_cons]
    rw [page, htake]
    by_cases hover : budget < totalSize size as + size b
    · refine iff_of_true ?_ (.inr hover)
      by_cases hfits : totalSize size as ≤ budget
      · have hnone : fill size budget (b :: bs.take k) (totalSize size as) = [] := by
          rw [fill, if_pos hover]
        have hall : fill size budget (as ++ b :: bs.take k) 0 = as := by
          rw [fill_append_of_total (by omega), Nat.zero_add, hnone, List.append_nil]
        exact Nat.le_of_eq (congrArg List.length hall)
      · exact fill_length_of_total _ (by omega)
    · refine iff_of_false ?_ (by omega)
      rw [fill_append_of_total (by omega), Nat.zero_add, fill, if_neg hover, List.length_append,
        List.length_cons]
      omega

end Zeroshot
