import Mathlib.Algebra.GroupWithZero.Nat
import Mathlib.Data.List.Basic

set_option autoImplicit false

/-!
# Ordered finite maps and sets

`OrdMap κ α` is a list of entries kept in increasing key order by `insert`, the list form of an
ordered tree map; `OrdSet κ` is the same for sets. Lookups and insertions go through `compare`.
The lemmas say what `get?` sees after each operation, and need only that `compare` decides
equality (`Std.LawfulEqOrd`); none of them asks for the entries to be sorted.
-/

namespace Zeroshot

/-- A finite map as a list of entries in key order. -/
abbrev OrdMap (κ α : Type) := List (κ × α)

/-- A finite set as a list of elements in order. -/
abbrev OrdSet (κ : Type) := List κ

namespace OrdMap

variable {κ α : Type} [Ord κ]

/-- The value stored at `k`. -/
def get? : OrdMap κ α → κ → Option α
  | [], _ => none
  | e :: m, k =>
    match compare k e.1 with
    | .eq => some e.2
    | _ => get? m k

/-- Store `v` at `k`, replacing the value already there. -/
def insert (k : κ) (v : α) : OrdMap κ α → OrdMap κ α
  | [] => [(k, v)]
  | e :: m =>
    match compare k e.1 with
    | .lt => (k, v) :: e :: m
    | .eq => (k, v) :: m
    | .gt => e :: insert k v m

/-- Whether `k` is a key. -/
def contains (m : OrdMap κ α) (k : κ) : Bool := (get? m k).isSome

/-- The keys in order. -/
def keys (m : OrdMap κ α) : List κ := m.map Prod.fst

/-- The values in key order. -/
def values (m : OrdMap κ α) : List α := m.map Prod.snd

/-- Store every entry of `source`, which wins over `target`. -/
def extend (target source : OrdMap κ α) : OrdMap κ α :=
  source.foldr (fun e m => insert e.1 e.2 m) target

/-- Drop the entry at `k`. -/
def remove (m : OrdMap κ α) (k : κ) : OrdMap κ α := m.filter fun e => compare k e.1 != .eq

/-- Apply `f` to the value at `k`, starting from `init` when there is none. -/
def alter (k : κ) (init : α) (f : α → α) (m : OrdMap κ α) : OrdMap κ α :=
  insert k (f ((get? m k).getD init)) m

/-- The map with the given entries; the first entry of a key wins. -/
def ofList (entries : List (κ × α)) : OrdMap κ α := extend [] entries

@[simp] theorem get?_nil (k : κ) : get? ([] : OrdMap κ α) k = none := rfl

theorem mem_insert_imp {k : κ} {v : α} {m : OrdMap κ α} {e : κ × α} (h : e ∈ insert k v m) :
    e = (k, v) ∨ e ∈ m := by
  induction m with
  | nil => exact .inl (List.mem_singleton.mp h)
  | cons e' m ih =>
    rw [insert] at h
    split at h
    · exact List.mem_cons.mp h
    · rcases List.mem_cons.mp h with h | h
      · exact .inl h
      · exact .inr (List.mem_cons_of_mem _ h)
    · rcases List.mem_cons.mp h with h | h
      · exact .inr (h ▸ List.mem_cons_self)
      · exact (ih h).imp_right (List.mem_cons_of_mem _)

theorem mem_insert_self (k : κ) (v : α) (m : OrdMap κ α) : (k, v) ∈ insert k v m := by
  induction m with
  | nil => exact List.mem_singleton.mpr rfl
  | cons e m ih =>
    rw [insert]
    split
    · exact List.mem_cons_self
    · exact List.mem_cons_self
    · exact List.mem_cons_of_mem _ ih

/-- An insertion keeps every entry but the one it replaces. -/
theorem mem_insert_of_mem (k : κ) (v : α) {m : OrdMap κ α} {e : κ × α} (h : e ∈ m) :
    e ∈ insert k v m ∨ get? m k = some e.2 := by
  induction m with
  | nil => cases h
  | cons e' m ih =>
    cases hc : compare k e'.1 with
    | lt => simp only [insert, hc]; exact .inl (List.mem_cons_of_mem _ h)
    | eq =>
      simp only [insert, get?, hc]
      rcases List.mem_cons.mp h with rfl | h
      · exact .inr rfl
      · exact .inl (List.mem_cons_of_mem _ h)
    | gt =>
      simp only [insert, get?, hc]
      rcases List.mem_cons.mp h with rfl | h
      · exact .inl List.mem_cons_self
      · exact (ih h).imp_left (List.mem_cons_of_mem _)

variable [Std.LawfulEqOrd κ]

theorem get?_cons_self (k : κ) (v : α) (m : OrdMap κ α) : get? ((k, v) :: m) k = some v := by
  simp [get?]

theorem get?_cons_ne {k k' : κ} (h : k' ≠ k) (v : α) (m : OrdMap κ α) :
    get? ((k, v) :: m) k' = get? m k' := by
  have hne : compare k' k ≠ .eq := fun he => h (Std.LawfulEqOrd.eq_of_compare he)
  cases hc : compare k' k <;> simp_all [get?]

theorem get?_insert_self (k : κ) (v : α) (m : OrdMap κ α) : get? (insert k v m) k = some v := by
  induction m with
  | nil => exact get?_cons_self k v []
  | cons e m ih =>
    cases hc : compare k e.1 with
    | lt => simp only [insert, hc]; exact get?_cons_self k v _
    | eq => simp only [insert, hc]; exact get?_cons_self k v _
    | gt => simp only [insert, hc, get?]; exact ih

theorem get?_insert_ne {k k' : κ} (h : k' ≠ k) (v : α) (m : OrdMap κ α) :
    get? (insert k v m) k' = get? m k' := by
  induction m with
  | nil => exact get?_cons_ne h v []
  | cons e m ih =>
    cases hc : compare k e.1 with
    | lt => simp only [insert, hc]; exact get?_cons_ne h v _
    | eq =>
      have he : k = e.1 := Std.LawfulEqOrd.eq_of_compare hc
      simp only [insert, hc]
      rw [get?_cons_ne h v, ← get?_cons_ne (he ▸ h) e.2 m]
    | gt => simp only [insert, hc, get?, ih]

theorem get?_extend (target source : OrdMap κ α) (k : κ) :
    get? (extend target source) k = (get? source k).or (get? target k) := by
  induction source with
  | nil => rfl
  | cons e source ih =>
    change get? (insert e.1 e.2 (extend target source)) k = _
    by_cases h : k = e.1
    · subst h
      rw [get?_insert_self, get?_cons_self]
      rfl
    · rw [get?_insert_ne h, ih, get?_cons_ne h]

/-- Keeping the entries whose key passes `p`. -/
theorem get?_filter (p : κ → Bool) (m : OrdMap κ α) (k : κ) :
    get? (m.filter fun e => p e.1) k = if p k then get? m k else none := by
  induction m with
  | nil => simp
  | cons e m ih =>
    obtain ⟨k', v⟩ := e
    by_cases h : k = k'
    · subst h
      cases hp : p k <;> simp_all [get?_cons_self]
    · rw [get?_cons_ne h, ← ih]
      cases hp : p k' <;> simp [hp, get?_cons_ne h]

/-- Replacing the values at the keys that pass `p`. -/
theorem get?_map_values (p : κ → Bool) (v : α) (m : OrdMap κ α) (k : κ) :
    get? (m.map fun e => if p e.1 then (e.1, v) else e) k =
      (get? m k).map fun w => if p k then v else w := by
  induction m with
  | nil => rfl
  | cons e m ih =>
    obtain ⟨k', w⟩ := e
    by_cases h : k = k'
    · subst h
      cases hp : p k <;> simp [hp, get?_cons_self]
    · rw [get?_cons_ne h, ← ih]
      cases hp : p k' <;> simp [hp, get?_cons_ne h]

theorem get?_remove_self (m : OrdMap κ α) (k : κ) : get? (remove m k) k = none := by
  unfold remove
  rw [get?_filter (fun k' => compare k k' != .eq)]
  simp

theorem get?_remove_ne {k k' : κ} (h : k' ≠ k) (m : OrdMap κ α) :
    get? (remove m k) k' = get? m k' := by
  have hne : compare k k' ≠ .eq := fun he => h (Std.LawfulEqOrd.eq_of_compare he).symm
  unfold remove
  rw [get?_filter (fun k' => compare k k' != .eq)]
  simp [hne]

omit [Std.LawfulEqOrd κ] in
/-- A key after all others is stored at the end. -/
theorem insert_of_gt {k : κ} {v : α} {m : OrdMap κ α} (h : ∀ e ∈ m, compare k e.1 = .gt) :
    insert k v m = m ++ [(k, v)] := by
  induction m with
  | nil => rfl
  | cons e m ih =>
    rw [insert, h e List.mem_cons_self]
    exact congrArg (e :: ·) (ih fun e he => h e (List.mem_cons_of_mem _ he))

/-- A key that is stored after smaller ones keeps its place. -/
theorem insert_middle {k : κ} {v old : α} {front rest : OrdMap κ α}
    (h : ∀ e ∈ front, compare k e.1 = .gt) :
    insert k v (front ++ (k, old) :: rest) = front ++ (k, v) :: rest := by
  induction front with
  | nil =>
    rw [List.nil_append, insert, Std.ReflOrd.compare_self]
    rfl
  | cons e front ih =>
    rw [List.cons_append, insert, h e List.mem_cons_self]
    exact congrArg (e :: ·) (ih fun e he => h e (List.mem_cons_of_mem _ he))

theorem mem_of_get? {m : OrdMap κ α} {k : κ} {v : α} (h : get? m k = some v) : (k, v) ∈ m := by
  induction m with
  | nil => cases h
  | cons e m ih =>
    obtain ⟨k', v'⟩ := e
    by_cases hk : k = k'
    · subst hk
      rw [get?_cons_self] at h
      cases h
      exact List.mem_cons_self
    · rw [get?_cons_ne hk] at h
      exact List.mem_cons_of_mem _ (ih h)

end OrdMap

namespace OrdSet

variable {κ : Type} [Ord κ]

/-- Membership through `compare`. -/
def contains (s : OrdSet κ) (k : κ) : Bool := s.any fun x => compare k x == .eq

/-- Add an element. -/
def insert (k : κ) : OrdSet κ → OrdSet κ
  | [] => [k]
  | x :: s =>
    match compare k x with
    | .lt => k :: x :: s
    | .eq => x :: s
    | .gt => x :: insert k s

/-- Add every element of `source`. -/
def extend (target source : OrdSet κ) : OrdSet κ := source.foldr insert target

/-- The set of the elements of a list. -/
def ofList (elements : List κ) : OrdSet κ := extend [] elements

variable [Std.LawfulEqOrd κ]

theorem contains_iff_mem {s : OrdSet κ} {k : κ} : contains s k = true ↔ k ∈ s := by
  simp only [contains, List.any_eq_true, beq_iff_eq]
  constructor
  · rintro ⟨x, hx, he⟩
    rwa [Std.LawfulEqOrd.eq_of_compare he]
  · intro h
    exact ⟨k, h, Std.ReflOrd.compare_self⟩

theorem mem_insert {s : OrdSet κ} {k x : κ} : x ∈ insert k s ↔ x = k ∨ x ∈ s := by
  induction s with
  | nil => simp [insert]
  | cons y s ih =>
    cases hc : compare k y with
    | lt => simp [insert, hc]
    | eq =>
      have he : k = y := Std.LawfulEqOrd.eq_of_compare hc
      simp only [insert, hc, List.mem_cons]
      subst he
      tauto
    | gt =>
      simp only [insert, hc, List.mem_cons, ih]
      tauto

theorem mem_extend {target source : OrdSet κ} {x : κ} :
    x ∈ extend target source ↔ x ∈ source ∨ x ∈ target := by
  induction source with
  | nil => simp [extend]
  | cons y source ih =>
    change x ∈ insert y (extend target source) ↔ _
    rw [mem_insert, ih, List.mem_cons, or_assoc]

end OrdSet

end Zeroshot
