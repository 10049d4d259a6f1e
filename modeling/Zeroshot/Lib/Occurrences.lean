import Mathlib.Data.List.Basic

set_option autoImplicit false

/-!
# Occurrences of words, and replacing them

A word occurs in a list wherever it is a prefix of what is left. `scan` walks a list from left to
right and replaces, at each position it has not skipped, the longest word that occurs there;
it keeps the position of every element it leaves alone.

`mem_scan_iff`: when occurrences overlap only by containment, `scan` keeps exactly the positions
that no occurrence covers. `scan_append`: a list may be cut wherever no occurrence crosses.
-/

namespace Zeroshot.Occurrences

variable {α : Type} {words : List (List α)} {xs ys full : List α}

/-- A word occurs at a position. -/
def OccursAt (word xs : List α) (i : Nat) : Prop := word <+: xs.drop i

instance [DecidableEq α] (word xs : List α) (i : Nat) : Decidable (OccursAt word xs i) :=
  inferInstanceAs (Decidable (word <+: xs.drop i))

/-- A position lies in an occurrence of a word. -/
def Covered (words : List (List α)) (xs : List α) (k : Nat) : Prop :=
  ∃ word ∈ words, ∃ i, OccursAt word xs i ∧ i ≤ k ∧ k < i + word.length

/-- Two stretches, from `i` and from `j`, overlap only when one contains the other. -/
def Laminar (i length j length' : Nat) : Prop :=
  i < j + length' → j < i + length →
    (i ≤ j ∧ j + length' ≤ i + length) ∨ (j ≤ i ∧ i + length ≤ j + length')

instance (i length j length' : Nat) : Decidable (Laminar i length j length') :=
  inferInstanceAs (Decidable (_ → _ → _))

/-- Occurrences overlap only when one contains the other. -/
def Nested (words : List (List α)) (xs : List α) : Prop :=
  ∀ word ∈ words, ∀ other ∈ words, ∀ i j, OccursAt word xs i → OccursAt other xs j →
    Laminar i word.length j other.length

/-- No occurrence goes on beyond a position it starts before. -/
def Uncrossed (words : List (List α)) (xs : List α) (b : Nat) : Prop :=
  ∀ word ∈ words, ∀ i, OccursAt word xs i → i < b → i + word.length ≤ b

theorem OccursAt.le_length {word : List α} {i : Nat} (h : OccursAt word xs i)
    (hword : word ≠ []) : i + word.length ≤ xs.length := by
  have hlength := h.length_le
  have hpositive : 0 < word.length := List.length_pos_iff.mpr hword
  rw [List.length_drop] at hlength
  omega

/-- Words that are not empty need to be compared inside the list only. -/
theorem nested_of_lt (hwords : ∀ word ∈ words, word ≠ [])
    (h : ∀ word ∈ words, ∀ other ∈ words, ∀ i < xs.length, ∀ j < xs.length,
      OccursAt word xs i → OccursAt other xs j → Laminar i word.length j other.length) :
    Nested words xs := by
  intro word hword other hother i j hi hj
  have hlength := hi.le_length (hwords word hword)
  have hlength' := hj.le_length (hwords other hother)
  have hpositive := List.length_pos_iff.mpr (hwords word hword)
  have hpositive' := List.length_pos_iff.mpr (hwords other hother)
  exact h word hword other hother i (by omega) j (by omega) hi hj

theorem OccursAt.of_take {word : List α} {i b : Nat} (h : OccursAt word (xs.take b) i) :
    OccursAt word xs i := by
  rw [OccursAt, List.drop_take] at h
  exact h.trans (List.take_prefix _ _)

theorem OccursAt.take {word : List α} {i b : Nat} (h : OccursAt word xs i)
    (hend : i + word.length ≤ b) : OccursAt word (xs.take b) i := by
  rw [OccursAt, List.drop_take]
  rw [List.prefix_take_iff]
  exact ⟨h, by omega⟩

theorem Nested.take (h : Nested words full) (b : Nat) : Nested words (full.take b) :=
  fun word hword other hother i j hi hj =>
    h word hword other hother i j hi.of_take hj.of_take

/-! ## Scanning -/

/-- A piece of the result: an element with its position, or the place of a word. -/
inductive Piece (α : Type)
  | kept (position : Nat) (value : α)
  | marked
  deriving DecidableEq, Repr

/-- Replace words from left to right, skipping what a word has taken; `longest` is the length of the
longest word in front. -/
def scan (longest : List α → Option Nat) : Nat → Nat → List α → List (Piece α)
  | _, _, [] => []
  | position, skip + 1, _ :: rest => scan longest (position + 1) skip rest
  | position, 0, x :: rest =>
    match longest (x :: rest) with
    | some n => .marked :: scan longest (position + 1) (n - 1) rest
    | none => .kept position x :: scan longest (position + 1) 0 rest

/-- `longest` finds the length of the longest word that a list starts with. -/
structure IsLongest (longest : List α → Option Nat) (words : List (List α)) : Prop where
  word : ∀ xs n, longest xs = some n → ∃ word ∈ words, word ≠ [] ∧ word <+: xs ∧ word.length = n
  max : ∀ xs, ∀ word ∈ words, word ≠ [] → word <+: xs → ∃ n, longest xs = some n ∧ word.length ≤ n

variable {longest : List α → Option Nat}

theorem IsLongest.append (h : IsLongest longest words)
    (hends : ∀ word ∈ words, word <+: xs ++ ys → word.length ≤ xs.length) :
    longest (xs ++ ys) = longest xs := by
  have hfront : ∀ word ∈ words, word <+: xs ++ ys → word <+: xs := fun word hword hbegins =>
    List.prefix_of_prefix_length_le hbegins (List.prefix_append xs ys) (hends word hword hbegins)
  cases hboth : longest (xs ++ ys) with
  | none =>
    cases hxs : longest xs with
    | none => rfl
    | some n =>
      obtain ⟨word, hword, hne, hbegins, -⟩ := h.word xs n hxs
      obtain ⟨m, hm, -⟩ :=
        h.max (xs ++ ys) word hword hne (hbegins.trans (List.prefix_append xs ys))
      rw [hboth] at hm
      cases hm
  | some n =>
    obtain ⟨word, hword, hne, hbegins, hlength⟩ := h.word _ n hboth
    obtain ⟨m, hm, hle⟩ := h.max xs word hword hne (hfront word hword hbegins)
    obtain ⟨other, hother, hne', hbegins', hlength'⟩ := h.word xs m hm
    obtain ⟨n', hn', hle'⟩ := h.max (xs ++ ys) other hother hne'
      (hbegins'.trans (List.prefix_append xs ys))
    rw [hboth] at hn'
    cases hn'
    rw [hm]
    exact congrArg some (by omega)

/-- **Cutting a scan**: where no occurrence crosses, the two sides are scanned apart. -/
theorem scan_append (h : IsLongest longest words) (position skip : Nat)
    (hfree : Uncrossed words (xs ++ ys) xs.length) (hskip : skip ≤ xs.length) :
    scan longest position skip (xs ++ ys) =
      scan longest position skip xs ++ scan longest (position + xs.length) 0 ys := by
  induction xs generalizing position skip with
  | nil =>
    obtain rfl : skip = 0 := Nat.le_zero.mp hskip
    rfl
  | cons x xs ih =>
    have htail : Uncrossed words (xs ++ ys) xs.length := by
      intro word hword i hoccurs hi
      have hend := hfree word hword (i + 1) hoccurs (Nat.succ_lt_succ hi)
      rw [List.length_cons] at hend
      omega
    have hnext : position + 1 + xs.length = position + (x :: xs).length := by
      rw [List.length_cons]
      omega
    cases skip with
    | succ skip =>
      rw [List.cons_append, scan, scan, ih (position + 1) skip htail (Nat.le_of_succ_le_succ hskip),
        hnext]
    | zero =>
      have hsame : longest ((x :: xs) ++ ys) = longest (x :: xs) := by
        refine h.append fun word hword hbegins => ?_
        have hend := hfree word hword 0 hbegins (Nat.succ_pos _)
        rwa [Nat.zero_add] at hend
      rw [List.cons_append] at hsame
      rw [List.cons_append, scan, scan, hsame]
      cases hlongest : longest (x :: xs) with
      | none =>
        dsimp only
        rw [ih (position + 1) 0 htail (Nat.zero_le _), hnext, List.cons_append]
      | some n =>
        obtain ⟨word, -, -, hbegins, hlength⟩ := h.word _ n hlongest
        have hle := hbegins.length_le
        rw [List.length_cons] at hle
        dsimp only
        rw [ih (position + 1) (n - 1) htail (by omega), hnext, List.cons_append]

theorem kept_bounds {position skip k : Nat} {x : α}
    (h : .kept k x ∈ scan longest position skip xs) :
    position ≤ k ∧ k < position + xs.length := by
  induction xs generalizing position skip with
  | nil =>
    cases skip <;> cases h
  | cons y xs ih =>
    rw [List.length_cons]
    cases skip with
    | succ skip =>
      rw [scan] at h
      have hin := ih h
      omega
    | zero =>
      rw [scan] at h
      cases hlongest : longest (y :: xs) with
      | none =>
        rw [hlongest] at h
        rcases List.mem_cons.mp h with heq | hin
        · cases heq
          omega
        · have hin := ih hin
          omega
      | some n =>
        rw [hlongest] at h
        rcases List.mem_cons.mp h with heq | hin
        · cases heq
        · have hin := ih hin
          omega

theorem Nested.uncrossed_longest (h : Nested words full) (hlongest : IsLongest longest words)
    {p n : Nat} (hbefore : Uncrossed words full p) (hfound : longest (full.drop p) = some n) :
    Uncrossed words full (p + n) := by
  obtain ⟨word, hword, hne, hbegins, hlength⟩ := hlongest.word _ n hfound
  have hpositive : 0 < word.length := List.length_pos_iff.mpr hne
  intro other hother i hoccurs hi
  by_cases hip : i < p
  · have hend := hbefore other hother i hoccurs hip
    omega
  · by_cases hempty : other.length = 0
    · omega
    · rcases h word hword other hother p i hbegins hoccurs (by omega) (by omega) with hin | hout
      · omega
      · obtain rfl : i = p := by omega
        obtain ⟨m, hm, hle⟩ := hlongest.max _ other hother
          (fun hc => hempty (by rw [hc]; rfl)) hoccurs
        rw [hfound] at hm
        cases hm
        omega

theorem mem_scan_aux (h : Nested words full) (hlongest : IsLongest longest words)
    {p skip : Nat} (hxs : xs = full.drop p) (hends : Uncrossed words full (p + skip))
    (hskipped : ∀ k, p ≤ k → k < p + skip → Covered words full k) (k : Nat) (x : α) :
    .kept k x ∈ scan longest p skip xs ↔
      p ≤ k ∧ full[k]? = some x ∧ ¬ Covered words full k := by
  induction xs generalizing p skip with
  | nil =>
    have hle : full.length ≤ p := List.drop_eq_nil_iff.mp hxs.symm
    refine iff_of_false (fun hc => (by cases skip <;> cases hc)) fun hc => ?_
    rw [List.getElem?_eq_none (by omega)] at hc
    cases hc.2.1
  | cons y xs ih =>
    have hhead : full[p]? = some y := by
      rw [← List.head?_drop, ← hxs]
      rfl
    have htail : xs = full.drop (p + 1) := by
      rw [← List.tail_drop, ← hxs]
      rfl
    have hstrict : Covered words full p →
        ((p + 1 ≤ k ∧ full[k]? = some x ∧ ¬ Covered words full k) ↔
          (p ≤ k ∧ full[k]? = some x ∧ ¬ Covered words full k)) := by
      intro hcovered
      constructor
      · exact fun hk => ⟨by omega, hk.2⟩
      · rintro ⟨hpk, hx, hnot⟩
        refine ⟨Nat.lt_of_le_of_ne hpk fun hc => hnot (hc ▸ hcovered), hx, hnot⟩
    cases skip with
    | succ skip =>
      rw [scan, ih htail (by rwa [Nat.add_assoc, Nat.add_comm 1])
        (fun j hj hlt => hskipped j (by omega) (by omega))]
      exact hstrict (hskipped p (Nat.le_refl _) (by omega))
    | zero =>
      cases hfound : longest (y :: xs) with
      | some n =>
        obtain ⟨word, hword, hne, hbegins, hlength⟩ := hlongest.word _ n hfound
        have hpositive : 0 < word.length := List.length_pos_iff.mpr hne
        rw [hxs] at hbegins
        have hcovered : ∀ j, p ≤ j → j < p + n → Covered words full j := fun j hj hlt =>
          ⟨word, hword, p, hbegins, hj, by omega⟩
        have hafter : Uncrossed words full (p + 1 + (n - 1)) := by
          rw [show p + 1 + (n - 1) = p + n by omega]
          exact h.uncrossed_longest hlongest hends (by rw [← hxs, hfound])
        rw [scan, hfound]
        dsimp only
        rw [List.mem_cons, or_iff_right (by simp), ih htail hafter
          (fun j hj hlt => hcovered j (by omega) (by omega))]
        exact hstrict (hcovered p (Nat.le_refl _) (by omega))
      | none =>
        have hnone : ∀ word ∈ words, OccursAt word full p → word = [] := by
          intro word hword hoccurs
          by_contra hne
          obtain ⟨n, hn, -⟩ := hlongest.max (full.drop p) word hword hne hoccurs
          rw [← hxs, hfound] at hn
          cases hn
        have hafter : Uncrossed words full (p + 1) := by
          intro word hword i hoccurs hi
          by_cases hip : i < p
          · have hend := hends word hword i hoccurs hip
            omega
          · obtain rfl : i = p := by omega
            rw [hnone word hword hoccurs]
            exact Nat.le_succ _
        have huncovered : ¬ Covered words full p := by
          rintro ⟨word, hword, i, hoccurs, hi, hlt⟩
          by_cases hip : i < p
          · have hend := hends word hword i hoccurs hip
            omega
          · obtain rfl : i = p := by omega
            rw [hnone word hword hoccurs] at hlt
            exact Nat.lt_irrefl _ hlt
        rw [scan, hfound]
        dsimp only
        rw [List.mem_cons, ih htail hafter (fun j hj hlt => by omega)]
        constructor
        · rintro (heq | ⟨hk, hx, hnot⟩)
          · cases heq
            exact ⟨Nat.le_refl _, hhead, huncovered⟩
          · exact ⟨by omega, hx, hnot⟩
        · rintro ⟨hk, hx, hnot⟩
          by_cases hkp : k = p
          · subst hkp
            rw [hhead] at hx
            cases hx
            exact .inl rfl
          · exact .inr ⟨by omega, hx, hnot⟩

/-- **What a scan keeps**: the elements that no occurrence covers. -/
theorem mem_scan_iff (h : Nested words full) (hlongest : IsLongest longest words) (k : Nat)
    (x : α) :
    .kept k x ∈ scan longest 0 0 full ↔ full[k]? = some x ∧ ¬ Covered words full k := by
  have hends : Uncrossed words full (0 + 0) := fun _ _ _ _ hc => absurd hc (Nat.not_lt_zero _)
  have hiff := mem_scan_aux h hlongest List.drop_zero.symm hends
    (fun _ _ hc => absurd hc (Nat.not_lt_zero _)) k x
  exact hiff.trans (and_iff_right (Nat.zero_le k))

end Zeroshot.Occurrences
