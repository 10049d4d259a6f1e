import Zeroshot.Lib.OrdMap

set_option autoImplicit false

/-!
# Ordered maps whose entries are sorted

`OrdMap.Sorted` is what an ordered tree map guarantees of its entries: the keys increase strictly.
`insert` keeps it. In a sorted map the entries are exactly what `get?` finds, and storing what is
already there changes nothing.
-/

namespace Zeroshot.OrdMap

variable {κ α : Type} [Ord κ]

/-- The keys of the entries increase strictly. -/
def Sorted (m : OrdMap κ α) : Prop := m.Pairwise fun a b => compare a.1 b.1 = .lt

instance (m : OrdMap κ α) : Decidable m.Sorted := inferInstanceAs (Decidable (List.Pairwise _ _))

@[simp] theorem sorted_nil : Sorted ([] : OrdMap κ α) := List.Pairwise.nil

theorem sorted_cons {e : κ × α} {m : OrdMap κ α} :
    Sorted (e :: m) ↔ (∀ e' ∈ m, compare e.1 e'.1 = .lt) ∧ m.Sorted := List.pairwise_cons

theorem sorted_remove {m : OrdMap κ α} (hm : m.Sorted) (k : κ) : (remove m k).Sorted :=
  List.Pairwise.filter _ hm

variable [Std.LawfulEqOrd κ]

theorem get?_eq_none {m : OrdMap κ α} {k : κ} : get? m k = none ↔ ∀ e ∈ m, e.1 ≠ k := by
  induction m with
  | nil => simp
  | cons e m ih =>
    obtain ⟨k', v⟩ := e
    by_cases h : k = k'
    · subst h
      simp [get?_cons_self]
    · rw [get?_cons_ne h, ih, List.forall_mem_cons]
      simp [Ne.symm h]

theorem get?_tail_eq_none {k : κ} {v : α} {m : OrdMap κ α} (h : Sorted ((k, v) :: m)) :
    get? m k = none := by
  rw [get?_eq_none]
  intro e he heq
  have hlt := (sorted_cons.mp h).1 e he
  rw [heq, Std.ReflOrd.compare_self] at hlt
  cases hlt

theorem get?_of_mem {m : OrdMap κ α} (hm : m.Sorted) {k : κ} {v : α} (h : (k, v) ∈ m) :
    get? m k = some v := by
  induction m with
  | nil => cases h
  | cons e m ih =>
    rw [sorted_cons] at hm
    rcases List.mem_cons.mp h with rfl | hin
    · exact get?_cons_self k v m
    · have hne : k ≠ e.1 := by
        intro he
        have hlt := hm.1 (k, v) hin
        rw [← he, Std.ReflOrd.compare_self] at hlt
        cases hlt
      rw [show (e :: m : OrdMap κ α) = (e.1, e.2) :: m from rfl, get?_cons_ne hne]
      exact ih hm.2 hin

theorem mem_iff_get? {m : OrdMap κ α} (hm : m.Sorted) {k : κ} {v : α} :
    (k, v) ∈ m ↔ get? m k = some v := ⟨get?_of_mem hm, mem_of_get?⟩

variable [Std.TransOrd κ]

/-- Storing the value already there changes nothing. -/
theorem insert_eq_self {m : OrdMap κ α} (hm : m.Sorted) {k : κ} {v : α}
    (h : get? m k = some v) : insert k v m = m := by
  induction m with
  | nil => cases h
  | cons e m ih =>
    obtain ⟨k', v'⟩ := e
    rw [sorted_cons] at hm
    by_cases hk : k = k'
    · subst hk
      rw [get?_cons_self] at h
      cases h
      simp [insert]
    · rw [get?_cons_ne hk] at h
      have hlt : compare k' k = .lt := hm.1 (k, v) (mem_of_get? h)
      cases hc : compare k k' with
      | lt => cases (Std.OrientedCmp.gt_iff_lt.mpr hlt).symm.trans hc
      | eq => exact absurd (Std.LawfulEqOrd.eq_of_compare hc) hk
      | gt => simp only [insert, hc, ih hm.2 h]

theorem sorted_insert {m : OrdMap κ α} (hm : m.Sorted) (k : κ) (v : α) :
    (insert k v m).Sorted := by
  induction m with
  | nil => exact List.pairwise_singleton _ _
  | cons e m ih =>
    rw [sorted_cons] at hm
    cases hc : compare k e.1 with
    | lt =>
      simp only [insert, hc]
      rw [sorted_cons, List.forall_mem_cons, sorted_cons]
      exact ⟨⟨hc, fun e' he' => Std.TransCmp.lt_trans hc (hm.1 e' he')⟩, hm⟩
    | eq =>
      have he : k = e.1 := Std.LawfulEqOrd.eq_of_compare hc
      simp only [insert, hc]
      rw [sorted_cons]
      exact ⟨fun e' he' => he ▸ hm.1 e' he', hm.2⟩
    | gt =>
      simp only [insert, hc]
      rw [sorted_cons]
      refine ⟨fun e' he' => ?_, ih hm.2⟩
      rcases mem_insert_imp he' with rfl | hin
      · exact Std.OrientedCmp.gt_iff_lt.mp hc
      · exact hm.1 e' hin

/-- **Sorted maps are determined by their lookups.** -/
theorem eq_of_get? {m m' : OrdMap κ α} (hm : m.Sorted) (hm' : m'.Sorted)
    (h : ∀ k, get? m k = get? m' k) : m = m' := by
  have hsame : ∀ e, e ∈ m ↔ e ∈ m' := by
    intro e
    rw [show e = (e.1, e.2) from rfl, mem_iff_get? hm, mem_iff_get? hm', h]
  have hnodup : ∀ {n : OrdMap κ α}, n.Sorted → n.Nodup := by
    intro n hn
    refine List.Pairwise.imp ?_ hn
    intro a b hlt heq
    rw [heq, Std.ReflOrd.compare_self] at hlt
    cases hlt
  have hperm : m.Perm m' := (List.perm_ext_iff_of_nodup (hnodup hm) (hnodup hm')).mpr hsame
  refine hperm.eq_of_pairwise (fun a b _ _ hlt hgt => ?_) hm hm'
  rw [Std.OrientedCmp.gt_iff_lt.mpr hgt] at hlt
  cases hlt

end Zeroshot.OrdMap
