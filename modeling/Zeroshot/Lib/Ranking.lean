import Mathlib.Data.List.Forall2
import Mathlib.Data.List.Sort
import Mathlib.Order.Fin.Basic

set_option autoImplicit false

/-!
# Ranking by time

A list is ranked by a total order `r` that refines a time `time a`. The elements up to a time `q`
come first, so the first places of the ranking depend on later elements only when the early ones
do not fill them:

* `take_insertionSort_of_le`: enough early elements fill the places;
* `exists_late_of_lt`: otherwise one of the places goes to a late element.

`forall₂_insertionSort` ranks two lists of related elements alike, and `Rearranged.insertionSort`
does so when one of them comes in another order.
-/

namespace Zeroshot

section

variable {α τ : Type} [LinearOrder τ] (r : α → α → Prop) [DecidableRel r] (time : α → τ)

theorem exists_late_of_lt (q : τ) (l : List α)
    {count : Nat} (h : (l.filter fun a => time a ≤ q).length < count) (hcount : count ≤ l.length) :
    ∃ a ∈ (l.insertionSort r).take count, q < time a := by
  by_contra hnone
  have hearly : ∀ a ∈ (l.insertionSort r).take count, decide (time a ≤ q) = true := fun a ha =>
    decide_eq_true (not_lt.mp fun hlt => hnone ⟨a, ha, hlt⟩)
  have hlength : ((l.insertionSort r).take count).length = count := by
    rw [List.length_take, List.length_insertionSort]
    exact Nat.min_eq_left hcount
  have hsub : (((l.insertionSort r).take count).filter fun a => decide (time a ≤ q)).length ≤
      ((l.insertionSort r).filter fun a => decide (time a ≤ q)).length :=
    ((List.take_sublist count _).filter _).length_le
  rw [List.filter_eq_self.mpr hearly, hlength,
    ((List.perm_insertionSort r l).filter _).length_eq] at hsub
  omega

variable [Std.Total r] [IsTrans α r] [Std.Antisymm r]

/-- The ranking is the ranking of the early elements followed by that of the late ones. -/
theorem insertionSort_split (hr : ∀ a b, time a < time b → r a b) (q : τ) (l : List α) :
    l.insertionSort r = (l.filter fun a => time a ≤ q).insertionSort r ++
      (l.filter fun a => !decide (time a ≤ q)).insertionSort r := by
  apply List.Perm.eq_of_pairwise' (r := r) (List.pairwise_insertionSort r l)
  · refine List.pairwise_append.mpr ⟨List.pairwise_insertionSort r _,
      List.pairwise_insertionSort r _, ?_⟩
    intro a ha b hb
    rw [List.mem_insertionSort, List.mem_filter, decide_eq_true_eq] at ha
    rw [List.mem_insertionSort, List.mem_filter, Bool.not_eq_true', decide_eq_false_iff_not,
      not_le] at hb
    exact hr a b (ha.2.trans_lt hb.2)
  · refine (List.perm_insertionSort r l).trans ?_
    refine (List.filter_append_perm (fun a => decide (time a ≤ q)) l).symm.trans ?_
    exact ((List.perm_insertionSort r _).append (List.perm_insertionSort r _)).symm

theorem take_insertionSort_of_le (hr : ∀ a b, time a < time b → r a b) (q : τ) (l : List α)
    {count : Nat} (h : count ≤ (l.filter fun a => time a ≤ q).length) :
    (l.insertionSort r).take count =
      ((l.filter fun a => time a ≤ q).insertionSort r).take count := by
  rw [insertionSort_split r time hr q l, List.take_append_of_le_length]
  rwa [List.length_insertionSort]

end

section

variable {α β : Type} {r : α → α → Prop} [DecidableRel r] {s : β → β → Prop} [DecidableRel s]
  {R : α → β → Prop}

theorem forall₂_orderedInsert (hrs : ∀ a b a' b', R a b → R a' b' → (r a a' ↔ s b b'))
    {a : α} {b : β} (hab : R a b) {as : List α} {bs : List β} (h : List.Forall₂ R as bs) :
    List.Forall₂ R (as.orderedInsert r a) (bs.orderedInsert s b) := by
  induction h with
  | nil => exact .cons hab .nil
  | @cons a' b' as bs hhead htail ih =>
    rw [List.orderedInsert_cons, List.orderedInsert_cons]
    by_cases hr : r a a'
    · rw [if_pos hr, if_pos ((hrs _ _ _ _ hab hhead).mp hr)]
      exact .cons hab (.cons hhead htail)
    · rw [if_neg hr, if_neg fun hs => hr ((hrs _ _ _ _ hab hhead).mpr hs)]
      exact .cons hhead ih

theorem forall₂_insertionSort (hrs : ∀ a b a' b', R a b → R a' b' → (r a a' ↔ s b b'))
    {as : List α} {bs : List β} (h : List.Forall₂ R as bs) :
    List.Forall₂ R (as.insertionSort r) (bs.insertionSort s) := by
  induction h with
  | nil => exact .nil
  | cons hhead _ ih => exact forall₂_orderedInsert hrs hhead ih

theorem forall₂_map_of_mem {γ : Type} {f : γ → α} {g : γ → β} {l : List γ}
    (h : ∀ c ∈ l, R (f c) (g c)) : List.Forall₂ R (l.map f) (l.map g) := by
  rw [List.forall₂_map_left_iff, List.forall₂_map_right_iff]
  exact List.forall₂_same.mpr h

theorem forall₂_find? {p : α → Bool} {q : β → Bool} (hpq : ∀ a b, R a b → p a = q b)
    {as : List α} {bs : List β} (h : List.Forall₂ R as bs) :
    Option.Rel R (as.find? p) (bs.find? q) := by
  induction h with
  | nil => exact .none
  | @cons a b as bs hhead _ ih =>
    rw [List.find?_cons, List.find?_cons, hpq a b hhead]
    split
    · exact .some hhead
    · exact ih

theorem forall₂_forall_mem_iff {P : α → Prop} {Q : β → Prop} (hPQ : ∀ a b, R a b → (P a ↔ Q b))
    {as : List α} {bs : List β} (h : List.Forall₂ R as bs) :
    (∀ a ∈ as, P a) ↔ ∀ b ∈ bs, Q b := by
  induction h with
  | nil => simp
  | @cons a b as bs hhead _ ih => rw [List.forall_mem_cons, List.forall_mem_cons, ih, hPQ a b hhead]

theorem forall₂_getElem? {as : List α} {bs : List β} (h : List.Forall₂ R as bs) (k : Nat) :
    as[k]? = none ∧ bs[k]? = none ∨ ∃ a b, as[k]? = some a ∧ bs[k]? = some b ∧ R a b := by
  induction h generalizing k with
  | nil => exact .inl ⟨rfl, rfl⟩
  | @cons a b as bs hhead _ ih =>
    cases k with
    | zero => exact .inr ⟨a, b, rfl, rfl, hhead⟩
    | succ k => exact ih k

theorem forall₂_getLast? {as : List α} {bs : List β} (h : List.Forall₂ R as bs) :
    as.getLast? = none ∧ bs.getLast? = none ∨
      ∃ a b, as.getLast? = some a ∧ bs.getLast? = some b ∧ R a b := by
  induction h with
  | nil => exact .inl ⟨rfl, rfl⟩
  | @cons a b as bs hhead htail ih =>
    right
    rcases ih with ⟨hnone, hnone'⟩ | ⟨a', b', hlast, hlast', hR⟩
    · rw [List.getLast?_eq_none_iff] at hnone hnone'
      subst hnone hnone'
      exact ⟨a, b, rfl, rfl, hhead⟩
    · refine ⟨a', b', ?_, ?_, hR⟩
      · rw [List.getLast?_cons, hlast, Option.getD_some]
      · rw [List.getLast?_cons, hlast', Option.getD_some]

end

/-! ## Rearranged lists

Two lists of related elements, one of them in another order. -/

/-- The lists hold related elements, in some order. -/
def Rearranged {α β : Type} (R : α → β → Prop) (as : List α) (bs : List β) : Prop :=
  ∃ as', as.Perm as' ∧ List.Forall₂ R as' bs

section

variable {α β : Type} {R : α → β → Prop} {as : List α} {bs : List β} (h : Rearranged R as bs)
include h

namespace Rearranged

theorem filter {p : α → Bool} {q : β → Bool} (hpq : ∀ a b, R a b → p a = q b) :
    Rearranged R (as.filter p) (bs.filter q) := by
  obtain ⟨as', hperm, hrel⟩ := h
  refine ⟨as'.filter p, hperm.filter p, ?_⟩
  clear hperm
  induction hrel with
  | nil => exact .nil
  | @cons a b as bs hhead _ ih =>
    rw [List.filter_cons, List.filter_cons, hpq a b hhead]
    split
    · exact .cons hhead ih
    · exact ih

theorem all_eq {p : α → Bool} {q : β → Bool} (hpq : ∀ a b, R a b → p a = q b) :
    as.all p = bs.all q := by
  obtain ⟨as', hperm, hrel⟩ := h
  rw [hperm.all_eq]
  clear hperm
  induction hrel with
  | nil => rfl
  | @cons a b as bs hhead _ ih => rw [List.all_cons, List.all_cons, ih, hpq a b hhead]

theorem pairwise_iff {S : α → α → Prop} {T : β → β → Prop} (hsymm : ∀ a b, S a b → S b a)
    (hST : ∀ a b a' b', R a b → R a' b' → (S a a' ↔ T b b')) :
    as.Pairwise S ↔ bs.Pairwise T := by
  obtain ⟨as', hperm, hrel⟩ := h
  rw [hperm.pairwise_iff fun {a b} => hsymm a b]
  clear hperm
  induction hrel with
  | nil => exact ⟨fun _ => .nil, fun _ => .nil⟩
  | @cons a b as bs hhead htail ih =>
    rw [List.pairwise_cons, List.pairwise_cons, ih]
    exact and_congr_left fun _ => forall₂_forall_mem_iff (fun a' b' => hST a b a' b' hhead) htail

/-- Ranking undoes the rearrangement when no two elements tie. -/
theorem insertionSort {r : α → α → Prop} [DecidableRel r] [Std.Total r] [IsTrans α r]
    {s : β → β → Prop} [DecidableRel s]
    (hties : ∀ a ∈ as, ∀ b ∈ as, r a b → r b a → a = b)
    (hrs : ∀ a b a' b', R a b → R a' b' → (r a a' ↔ s b b')) :
    List.Forall₂ R (as.insertionSort r) (bs.insertionSort s) := by
  obtain ⟨as', hperm, hrel⟩ := h
  have hsorted : as.insertionSort r = as'.insertionSort r := by
    refine List.Perm.eq_of_pairwise (fun a b ha hb => ?_) (List.pairwise_insertionSort r as)
      (List.pairwise_insertionSort r as') ?_
    · rw [List.mem_insertionSort] at ha hb
      exact hties a ha b (hperm.mem_iff.mpr hb)
    · exact (List.perm_insertionSort r as).trans
        (hperm.trans (List.perm_insertionSort r as').symm)
  rw [hsorted]
  exact forall₂_insertionSort hrs hrel

/-- The only element with a property, in either order. -/
theorem find? {p : α → Bool} {q : β → Bool} (hpq : ∀ a b, R a b → p a = q b)
    (hone : as.Pairwise fun a b => ¬ (p a = true ∧ p b = true)) :
    Option.Rel R (as.find? p) (bs.find? q) := by
  obtain ⟨as', hperm, hrel⟩ := h
  have hfound : as.filter p = as'.filter p := by
    have hnone : ∀ l : List α, (l.Pairwise fun a b => ¬ (p a = true ∧ p b = true)) →
        (l.filter p).Pairwise fun _ _ => False := by
      intro l hl
      rw [List.pairwise_filter]
      exact hl.imp fun hnot ha hb => hnot ⟨ha, hb⟩
    refine List.Perm.eq_of_pairwise (fun _ _ _ _ hfalse => hfalse.elim) (hnone as hone)
      (hnone as' ?_) (hperm.filter p)
    exact (hperm.pairwise_iff fun hnot hboth => hnot ⟨hboth.2, hboth.1⟩).mp hone
  rw [← List.head?_filter, hfound, List.head?_filter]
  exact forall₂_find? hpq hrel

end Rearranged

end

/-! ## Matched orders

Values of two linear orders that are matched so that comparing them on either side is the same. -/

/-- A relation between two linear orders that keeps comparisons. -/
def OrderMatch {τ τ' : Type} [LinearOrder τ] [LinearOrder τ'] (M : τ → τ' → Prop) : Prop :=
  ∀ p p' q q', M p p' → M q q' → (p < q ↔ p' < q')

namespace OrderMatch

variable {τ τ' : Type} [LinearOrder τ] [LinearOrder τ'] {M : τ → τ' → Prop} (hM : OrderMatch M)
  {p q : τ} {p' q' : τ'}
include hM

theorem lt_iff (hp : M p p') (hq : M q q') : p < q ↔ p' < q' := hM p p' q q' hp hq

theorem le_iff (hp : M p p') (hq : M q q') : p ≤ q ↔ p' ≤ q' := by
  rw [← not_lt, ← not_lt, hM.lt_iff hq hp]

theorem eq_iff (hp : M p p') (hq : M q q') : p = q ↔ p' = q' := by
  rw [le_antisymm_iff, le_antisymm_iff, hM.le_iff hp hq, hM.le_iff hq hp]

theorem max (hp : M p p') (hq : M q q') : M (p ⊔ q) (p' ⊔ q') := by
  rcases le_total p q with hle | hle
  · rwa [max_eq_right hle, max_eq_right ((hM.le_iff hp hq).mp hle)]
  · rwa [max_eq_left hle, max_eq_left ((hM.le_iff hq hp).mp hle)]

theorem foldr_max {ps : List τ} {ps' : List τ'} (hps : List.Forall₂ M ps ps') (hp : M p p') :
    M (ps.foldr (· ⊔ ·) p) (ps'.foldr (· ⊔ ·) p') := by
  induction hps with
  | nil => exact hp
  | cons hhead _ ih => exact hM.max hhead ih

end OrderMatch

end Zeroshot
