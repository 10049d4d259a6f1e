import Mathlib.Data.Nat.Choose.Dvd
import Zeroshot.Lib.SortedMap
import Zeroshot.Lib.Successor
import Zeroshot.Verifier.Assignments

set_option autoImplicit false

/-!
# Multisets of item outcomes

A map runs at most `maximum` items, and each ends with one of the outcomes of its body, so what its
controls report is a sum over a multiset of outcomes. The verifier walks these multisets as
nondecreasing sequences of indexes, raising the last index that can be raised.

The route: the sequences of one length are `Chained` by `nextIndexes` (`chained_sequences`), so the
walk visits `sequencesUpTo` and nothing else (`forEachOutcomeMultiset_eq_visitAll`); the incremental
count is the binomial coefficient as long as it stays below the ceiling
(`boundedDistributionCount_eq`); combining the outcomes of a sequence adds their label counts
(`combineOutcomeOccurrences_eq`). **The aggregate is exact**: `outcome_multisets_exact`.
-/

namespace Zeroshot

/-! ## The walk -/

theorem head?_sequences (choices length low : Nat) :
    (sequences (choices + 1) length low).head? = some (List.replicate length low) := by
  induction length with
  | zero => simp [sequences_zero]
  | succ length ih =>
    rw [sequences, List.head?_append, List.head?_map, ih]
    rfl

/-- The sequences of one length follow each other by `nextIndexes`. -/
theorem chained_sequences (choices length low : Nat) :
    Chained (nextIndexes (low + choices)) (sequences choices length low) := by
  induction choices, length, low using sequences.induct with
  | case1 choices low =>
    rw [sequences_zero]
    rfl
  | case2 length low =>
    rw [sequences]
    exact trivial
  | case3 choices length low ihlow ihabove =>
    rw [sequences]
    -- Below `low ::`, the successor is that of the tail.
    have hfirst : Chained
        (fun indexes => (nextIndexes (low + (choices + 1)) indexes.tail).map (low :: ·))
        ((sequences (choices + 1) length low).map (low :: ·)) :=
      ihlow.map fun _ _ => rfl
    rw [show low + 1 + choices = low + (choices + 1) by omega] at ihabove
    refine hfirst.append ihabove ?_ ?_
    · intro indexes hindexes next hnext
      obtain ⟨rest, -, rfl⟩ := List.mem_map.mp hindexes
      obtain ⟨rest', hrest, rfl⟩ := Option.map_eq_some_iff.mp hnext
      rw [List.tail_cons] at hrest
      rw [nextIndexes, hrest]
    · intro indexes hindexes hnext
      obtain ⟨rest, hmem, rfl⟩ := List.mem_map.mp hindexes
      have hrest := Option.map_eq_none_iff.mp hnext
      rw [List.tail_cons] at hrest
      simp only [nextIndexes, hrest]
      -- The tail is exhausted: every later sequence starts above `low`, if there is room.
      cases choices with
      | zero => simp [sequences]
      | succ choices =>
        rw [if_pos (by omega), head?_sequences, (mem_sequences.mp hmem).1]

theorem multichoose_le_pow (choices length : Nat) :
    choices.multichoose length ≤ choices ^ length := by
  induction choices, length using Nat.multichoose.induct with
  | case1 choices => simp
  | case2 length => simp
  | case3 choices length ihfewer ihshorter =>
    have hpow : choices ^ (length + 1) ≤ (choices + 1) ^ length * choices := by
      rw [pow_succ]
      exact Nat.mul_le_mul_right _ (Nat.pow_le_pow_left (Nat.le_succ _) _)
    rw [Nat.multichoose_succ_succ, pow_succ (choices + 1), Nat.mul_succ]
    omega

section Walk

variable {σ : Type} (outcomes : Nat) (visit : σ → List Nat → σ × Bool)

/-- With enough fuel the inner loop visits the whole chain. -/
theorem visitIndexes_eq_visitAll {indexes : List Nat} {rest : List (List Nat)}
    (hchain : Chained (nextIndexes outcomes) (indexes :: rest)) {fuel : Nat}
    (hfuel : rest.length < fuel) (state : σ) :
    visitIndexes outcomes visit fuel indexes state = visitAll visit (indexes :: rest) state := by
  induction rest generalizing indexes fuel state with
  | nil =>
    obtain ⟨fuel, rfl⟩ : ∃ n, fuel = n + 1 := ⟨fuel - 1, by omega⟩
    have hnone : nextIndexes outcomes indexes = none := hchain
    rw [visitIndexes, visitAll]
    cases hvisit : visit state indexes with
    | mk next more => cases more <;> simp [hnone, visitAll]
  | cons next rest ih =>
    obtain ⟨fuel, rfl⟩ : ∃ n, fuel = n + 1 := ⟨fuel - 1, by omega⟩
    rw [List.length_cons] at hfuel
    rw [visitIndexes, visitAll]
    cases hvisit : visit state indexes with
    | mk state' more =>
      cases more with
      | false => rfl
      | true =>
        simp only [hchain.1]
        exact ih hchain.2 (by omega) state'

theorem visitTotals_eq_visitAll (totals : List Nat) (state : σ) :
    visitTotals (outcomes + 1) visit totals state =
      visitAll visit (totals.flatMap fun total => sequences (outcomes + 1) total 0) state := by
  induction totals generalizing state with
  | nil => rfl
  | cons total totals ih =>
    have hchain := chained_sequences (outcomes + 1) total 0
    have hhead := head?_sequences outcomes total 0
    have hlength := multichoose_le_pow (outcomes + 1) total
    rw [← length_sequences _ _ 0] at hlength
    rw [Nat.zero_add] at hchain
    obtain ⟨rest, hrest⟩ := List.head?_eq_some_iff.mp hhead
    rw [hrest] at hchain hlength
    rw [List.flatMap_cons, visitAll_append, visitTotals, hrest,
      visitIndexes_eq_visitAll _ visit hchain hlength]
    cases visitAll visit (List.replicate total 0 :: rest) state with
    | mk state' more =>
      cases more with
      | false => rfl
      | true => exact ih state'

theorem sequencesUpTo_eq (maximum : Nat) : sequencesUpTo outcomes maximum =
    [] :: (List.range' 1 maximum).flatMap fun total => sequences outcomes total 0 := by
  rw [sequencesUpTo, List.range_eq_range', List.range'_succ, List.flatMap_cons, sequences_zero]
  rfl

/-- **The walk visits each nondecreasing sequence once, in order, until a visit stops it.** -/
theorem forEachOutcomeMultiset_eq_visitAll (maximum : Nat) (state : σ) :
    forEachOutcomeMultiset outcomes maximum visit state =
      visitAll visit (sequencesUpTo outcomes maximum) state := by
  rw [forEachOutcomeMultiset, sequencesUpTo_eq, visitAll]
  cases hvisit : visit state [] with
  | mk state' more =>
    cases more with
    | false => rfl
    | true =>
      cases outcomes with
      | zero =>
        have hempty : ((List.range' 1 maximum).flatMap fun total => sequences 0 total 0) = [] := by
          rw [List.flatMap_eq_nil_iff]
          intro total htotal
          obtain ⟨total, rfl⟩ : ∃ n, total = n + 1 :=
            ⟨total - 1, by have := List.mem_range'_1.mp htotal; omega⟩
          rw [sequences]
        rw [hempty]
        rfl
      | succ outcomes => exact visitTotals_eq_visitAll outcomes visit _ state'

end Walk

/-! ## The count -/

/-- One step of the count: `C(m + d, d) = C(m + d - 1, d - 1) * (m + d) / d`. -/
theorem choose_mul_div (maximum divisor : Nat) :
    (maximum + divisor).choose divisor * (maximum + (divisor + 1)) / (divisor + 1) =
      (maximum + (divisor + 1)).choose (divisor + 1) := by
  have h := Nat.add_one_mul_choose_eq (maximum + divisor) divisor
  rw [show maximum + (divisor + 1) = maximum + divisor + 1 by omega, Nat.mul_comm, h]
  exact Nat.mul_div_cancel _ (Nat.succ_pos divisor)

/-- The coefficients along the count increase. -/
theorem choose_le_choose_add (maximum : Nat) {divisor divisor' : Nat} (h : divisor ≤ divisor') :
    (maximum + divisor).choose divisor ≤ (maximum + divisor').choose divisor' := by
  rw [← Nat.choose_symm_add, ← Nat.choose_symm_add]
  exact Nat.choose_le_choose _ (Nat.add_le_add_left h _)

/-- Below the ceiling no product of the count overflows. -/
theorem numerator_mul_lt {maximum divisor : Nat} (hdivisor : divisor + 1 < u64Limit)
    (hchoose : (maximum + (divisor + 1)).choose (divisor + 1) ≤ maxGuardAssignments) :
    (maximum + divisor).choose divisor * (maximum + (divisor + 1)) < u64Limit := by
  cases maximum with
  | zero => simpa using hdivisor
  | succ maximum =>
    have hstep := Nat.add_one_mul_choose_eq (maximum + 1 + divisor) divisor
    rw [show maximum + 1 + divisor + 1 = maximum + 1 + (divisor + 1) by omega] at hstep
    -- With an item to spare the coefficient is at least the divisor.
    have hleast : divisor + 1 ≤ (maximum + 1 + divisor).choose divisor := by
      calc divisor + 1 = (1 + divisor).choose divisor := by
            rw [Nat.add_comm 1, Nat.choose_succ_self_right]
        _ ≤ (maximum + 1 + divisor).choose divisor := Nat.choose_le_choose _ (by omega)
    have hdivisor' : divisor + 1 ≤ maxGuardAssignments :=
      hleast.trans ((choose_le_choose_add _ (Nat.le_succ divisor)).trans hchoose)
    calc (maximum + 1 + divisor).choose divisor * (maximum + 1 + (divisor + 1))
        = (maximum + 1 + (divisor + 1)).choose (divisor + 1) * (divisor + 1) := by
          rw [Nat.mul_comm, hstep]
      _ ≤ maxGuardAssignments * maxGuardAssignments := Nat.mul_le_mul hchoose hdivisor'
      _ < u64Limit := by decide

/-- The count from a divisor on is the coefficient when that is within the ceiling. -/
theorem distributionCount_eq {maximum remaining divisor : Nat}
    (hlimit : divisor + remaining < u64Limit)
    (hbound : (maximum + (divisor + remaining)).choose (divisor + remaining) ≤
      maxGuardAssignments) :
    distributionCount maximum remaining (divisor + 1) ((maximum + divisor).choose divisor) =
      some ((maximum + (divisor + remaining)).choose (divisor + remaining)) := by
  induction remaining generalizing divisor with
  | zero => rfl
  | succ remaining ih =>
    rw [show divisor + (remaining + 1) = divisor + 1 + remaining by omega] at hlimit hbound ⊢
    have hnext : (maximum + (divisor + 1)).choose (divisor + 1) ≤ maxGuardAssignments :=
      (choose_le_choose_add maximum (Nat.le_add_right _ _)).trans hbound
    have hproduct := numerator_mul_lt (by omega) hnext
    have hpos : 0 < (maximum + divisor).choose divisor := Nat.choose_pos (Nat.le_add_left _ _)
    have hnumerator : maximum + (divisor + 1) < u64Limit :=
      (Nat.le_mul_of_pos_left _ hpos).trans_lt hproduct
    rw [distributionCount, if_neg (by simp; omega)]
    simp only [choose_mul_div]
    rw [if_neg (by omega)]
    exact ih hlimit hbound

/-- Whatever the count returns within the ceiling is the coefficient. -/
theorem eq_choose_of_distributionCount {maximum remaining divisor count : Nat}
    (h : distributionCount maximum remaining (divisor + 1) ((maximum + divisor).choose divisor) =
      some count) (hcount : count ≤ maxGuardAssignments) :
    count = (maximum + (divisor + remaining)).choose (divisor + remaining) := by
  induction remaining generalizing divisor with
  | zero => exact (Option.some.inj h).symm
  | succ remaining ih =>
    rw [distributionCount] at h
    split at h
    · cases h
    · simp only [choose_mul_div] at h
      split at h
      · cases h
        omega
      · rw [ih h, show divisor + 1 + remaining = divisor + (remaining + 1) by omega]

theorem boundedDistributionCount_def (maximum labels : Nat) :
    boundedDistributionCount maximum labels =
      distributionCount maximum labels (0 + 1) ((maximum + 0).choose 0) := by
  rw [boundedDistributionCount, Nat.choose_zero_right]

/-- **Within the ceiling the count is the binomial coefficient.** -/
theorem boundedDistributionCount_eq {maximum labels : Nat} (hlabels : labels < u64Limit)
    (hbound : (maximum + labels).choose labels ≤ maxGuardAssignments) :
    boundedDistributionCount maximum labels = some ((maximum + labels).choose labels) := by
  rw [← Nat.zero_add labels] at hlabels hbound
  rw [boundedDistributionCount_def, distributionCount_eq hlabels hbound, Nat.zero_add]

theorem eq_choose_of_boundedDistributionCount {maximum labels count : Nat}
    (h : boundedDistributionCount maximum labels = some count)
    (hcount : count ≤ maxGuardAssignments) : count = (maximum + labels).choose labels := by
  rw [boundedDistributionCount_def] at h
  rw [eq_choose_of_distributionCount h hcount, Nat.zero_add]

/-! ## Adding outcomes -/

/-- The keys of the map and the labels of its controls increase, as in a tree map. -/
def Assignment.Ordered (assignment : Assignment) : Prop :=
  OrdMap.Sorted assignment ∧ ∀ entry ∈ assignment, OrdMap.Sorted entry.2

instance (assignment : Assignment) : Decidable assignment.Ordered :=
  inferInstanceAs (Decidable (_ ∧ _))

/-- How often a control reports a label. -/
def AssignedControl.labelCount (control : AssignedControl) (label : EnumLabel) : Nat :=
  (OrdMap.get? control label).getD 0

/-- The label-count vector of an assignment. -/
def Assignment.labelCount (assignment : Assignment) (key : SelectorKey) (label : EnumLabel) : Nat :=
  AssignedControl.labelCount ((OrdMap.get? assignment key).getD []) label

theorem AssignedControl.labelCount_insert (control : AssignedControl) (label other : EnumLabel)
    (count : Nat) : AssignedControl.labelCount (OrdMap.insert label count control) other =
      if other = label then count else control.labelCount other := by
  by_cases h : other = label
  · rw [if_pos h, h, labelCount, OrdMap.get?_insert_self]
    rfl
  · rw [if_neg h, labelCount, OrdMap.get?_insert_ne h]
    rfl

/-- The counts of a control with one more label in front. -/
theorem AssignedControl.labelCount_cons {label : EnumLabel} {count : Nat}
    {counts : AssignedControl} (h : OrdMap.Sorted ((label, count) :: counts)) (other : EnumLabel) :
    AssignedControl.labelCount ((label, count) :: counts) other =
      (if other = label then count else 0) + counts.labelCount other := by
  by_cases hother : other = label
  · subst hother
    rw [if_pos rfl, labelCount, labelCount, OrdMap.get?_cons_self, OrdMap.get?_tail_eq_none h]
    rfl
  · rw [if_neg hother, labelCount, OrdMap.get?_cons_ne hother, Nat.zero_add]
    rfl

/-- Adding the counts of one control adds them label by label. -/
theorem addCounts_eq {target counts : AssignedControl} (hcounts : OrdMap.Sorted counts)
    (hfits : ∀ label, target.labelCount label + counts.labelCount label < u64Limit) :
    ∃ sum, addCounts target counts = some sum ∧
      ∀ label, AssignedControl.labelCount sum label =
        target.labelCount label + counts.labelCount label := by
  induction counts generalizing target with
  | nil => exact ⟨target, rfl, fun _ => rfl⟩
  | cons entry counts ih =>
    obtain ⟨label, count⟩ := entry
    have hcons := AssignedControl.labelCount_cons hcounts
    have hsum : (OrdMap.get? target label).getD 0 + count < u64Limit := by
      have h := hfits label
      rw [hcons, if_pos rfl, AssignedControl.labelCount] at h
      omega
    have htarget : ∀ other, AssignedControl.labelCount
        (OrdMap.insert label ((OrdMap.get? target label).getD 0 + count) target) other =
          target.labelCount other + if other = label then count else 0 := by
      intro other
      rw [AssignedControl.labelCount_insert]
      by_cases h : other = label
      · rw [if_pos h, if_pos h, h]
        rfl
      · rw [if_neg h, if_neg h, Nat.add_zero]
    obtain ⟨sum, heq, hcount⟩ := ih (OrdMap.sorted_cons.mp hcounts).2 (fun other => by
      have h := hfits other
      rw [hcons] at h
      rw [htarget]
      omega)
    refine ⟨sum, ?_, fun other => ?_⟩
    · rw [addCounts, if_neg (Nat.not_le.mpr hsum)]
      exact heq
    · rw [hcount, htarget, hcons, Nat.add_assoc]

theorem Assignment.labelCount_insert (assignment : Assignment) (key other : SelectorKey)
    (control : AssignedControl) (label : EnumLabel) :
    Assignment.labelCount (OrdMap.insert key control assignment) other label =
      if other = key then control.labelCount label else assignment.labelCount other label := by
  by_cases h : other = key
  · rw [if_pos h, h, labelCount, OrdMap.get?_insert_self]
    rfl
  · rw [if_neg h, labelCount, OrdMap.get?_insert_ne h]
    rfl

theorem Assignment.labelCount_cons {key : SelectorKey} {control : AssignedControl}
    {assignment : Assignment} (h : OrdMap.Sorted ((key, control) :: assignment))
    (other : SelectorKey) (label : EnumLabel) :
    Assignment.labelCount ((key, control) :: assignment) other label =
      (if other = key then control.labelCount label else 0) +
        assignment.labelCount other label := by
  by_cases hother : other = key
  · subst hother
    rw [if_pos rfl, labelCount, labelCount, OrdMap.get?_cons_self, OrdMap.get?_tail_eq_none h]
    rfl
  · rw [if_neg hother, labelCount, OrdMap.get?_cons_ne hother, Nat.zero_add]
    rfl

/-- Adding one outcome adds its vector. -/
theorem addOutcome_eq {combined outcome : Assignment} (houtcome : outcome.Ordered)
    (hfits : ∀ key label, combined.labelCount key label + outcome.labelCount key label < u64Limit) :
    ∃ sum, addOutcome combined outcome = some sum ∧
      ∀ key label, Assignment.labelCount sum key label =
        combined.labelCount key label + outcome.labelCount key label := by
  induction outcome generalizing combined with
  | nil => exact ⟨combined, rfl, fun _ _ => rfl⟩
  | cons entry outcome ih =>
    obtain ⟨key, value⟩ := entry
    obtain ⟨hkeys, hvalues⟩ := houtcome
    have hcons := Assignment.labelCount_cons hkeys
    have hfits' : ∀ label, AssignedControl.labelCount ((OrdMap.get? combined key).getD []) label +
        AssignedControl.labelCount value label < u64Limit := by
      intro label
      have h := hfits key label
      rw [hcons, if_pos rfl, Assignment.labelCount] at h
      omega
    obtain ⟨control, hcontrol, hcounts⟩ :=
      addCounts_eq (hvalues (key, value) List.mem_cons_self) hfits'
    have htarget : ∀ other label,
        Assignment.labelCount (OrdMap.insert key control combined) other label =
          combined.labelCount other label +
            if other = key then AssignedControl.labelCount value label else 0 := by
      intro other label
      rw [Assignment.labelCount_insert]
      by_cases h : other = key
      · rw [if_pos h, if_pos h, hcounts, h]
        rfl
      · rw [if_neg h, if_neg h, Nat.add_zero]
    obtain ⟨sum, heq, hcount⟩ := ih
      ⟨(OrdMap.sorted_cons.mp hkeys).2, fun entry hentry =>
        hvalues entry (List.mem_cons_of_mem _ hentry)⟩ (fun other label => by
      have h := hfits other label
      rw [hcons] at h
      rw [htarget]
      omega)
    refine ⟨sum, ?_, fun other label => ?_⟩
    · rw [addOutcome, hcontrol]
      exact heq
    · rw [hcount, htarget, hcons, Nat.add_assoc]

theorem labelCount_emptyOutcome (keys : List SelectorKey) (key : SelectorKey) (label : EnumLabel) :
    Assignment.labelCount (emptyOutcome keys) key label = 0 := by
  have hfold : ∀ assignment : Assignment, assignment.labelCount key label = 0 →
      Assignment.labelCount (keys.foldl (fun assignment key =>
        OrdMap.insert key (assignedControl none 0) assignment) assignment) key label = 0 := by
    induction keys with
    | nil => exact fun _ h => h
    | cons first keys ih =>
      intro assignment h
      refine ih _ ?_
      rw [Assignment.labelCount_insert]
      by_cases hkey : key = first
      · rw [if_pos hkey]
        rfl
      · rw [if_neg hkey, h]
  exact hfold [] rfl

/-! ## Items -/

/-- The outcomes of the items a sequence of indexes stands for. -/
def itemsAt (outcomes : List Assignment) (indexes : List Nat) : List Assignment :=
  indexes.filterMap (outcomes[·]?)

/-- The label-count vector of a list of items: the sum of those of its outcomes. -/
def itemLabelCount (items : List Assignment) (key : SelectorKey) (label : EnumLabel) : Nat :=
  (items.map fun outcome => outcome.labelCount key label).sum

theorem mem_of_mem_itemsAt {outcomes : List Assignment} {indexes : List Nat} {outcome : Assignment}
    (h : outcome ∈ itemsAt outcomes indexes) : outcome ∈ outcomes := by
  obtain ⟨index, -, hindex⟩ := List.mem_filterMap.mp h
  exact List.mem_of_getElem? hindex

theorem itemsAt_cons {outcomes : List Assignment} {index : Nat} {indexes : List Nat}
    {outcome : Assignment} (h : outcomes[index]? = some outcome) :
    itemsAt outcomes (index :: indexes) = outcome :: itemsAt outcomes indexes := by
  rw [itemsAt, List.filterMap_cons, h]
  rfl

/-- Distinct outcomes: the indexes can be read off the items. -/
theorem map_idxOf_itemsAt {outcomes : List Assignment} (hdistinct : outcomes.Nodup)
    {indexes : List Nat} (hindexes : ∀ i ∈ indexes, i < outcomes.length) :
    (itemsAt outcomes indexes).map outcomes.idxOf = indexes := by
  induction indexes with
  | nil => rfl
  | cons index indexes ih =>
    obtain ⟨hindex, hrest⟩ := List.forall_mem_cons.mp hindexes
    rw [itemsAt_cons (List.getElem?_eq_getElem hindex), List.map_cons, ih hrest,
      hdistinct.idxOf_getElem]

/-- Every list of outcomes is the items at some indexes. -/
theorem itemsAt_map_idxOf {outcomes items : List Assignment}
    (hitems : ∀ outcome ∈ items, outcome ∈ outcomes) :
    itemsAt outcomes (items.map outcomes.idxOf) = items := by
  induction items with
  | nil => rfl
  | cons outcome items ih =>
    obtain ⟨hmem, hrest⟩ := List.forall_mem_cons.mp hitems
    have hget : outcomes[outcomes.idxOf outcome]? = some outcome := List.getElem?_idxOf hmem
    rw [List.map_cons, itemsAt_cons hget, ih hrest]

theorem length_itemsAt_le (outcomes : List Assignment) (indexes : List Nat) :
    (itemsAt outcomes indexes).length ≤ indexes.length := List.length_filterMap_le _ _

/-- Sums over at most `maximum` items fit, when the largest multiple of each summand does. -/
theorem itemLabelCount_lt {items : List Assignment} {maximum : Nat}
    (hlength : items.length ≤ maximum) {key : SelectorKey} {label : EnumLabel}
    (hfits : ∀ outcome ∈ items, outcome.labelCount key label * maximum < u64Limit) :
    itemLabelCount items key label < u64Limit := by
  have hlimit : 0 < u64Limit := by decide
  have hsum : itemLabelCount items key label * maximum ≤ items.length * (u64Limit - 1) := by
    clear hlength
    induction items with
    | nil => simp [itemLabelCount]
    | cons outcome items ih =>
      obtain ⟨hfirst, hrest⟩ := List.forall_mem_cons.mp hfits
      have ih := ih hrest
      rw [itemLabelCount, List.map_cons, List.sum_cons, Nat.add_mul, List.length_cons, Nat.succ_mul]
      change _ + itemLabelCount items key label * maximum ≤ _
      omega
  cases maximum with
  | zero =>
    obtain rfl : items = [] := List.length_eq_zero_iff.mp (Nat.le_zero.mp hlength)
    exact hlimit
  | succ maximum =>
    have hbound := hsum.trans (Nat.mul_le_mul_right (u64Limit - 1) hlength)
    rw [Nat.mul_comm] at hbound
    have hle := Nat.le_of_mul_le_mul_left hbound (Nat.succ_pos maximum)
    omega

/-- **Combining the outcomes of a sequence adds their vectors.** -/
theorem combineOutcomeOccurrences_eq {keys : List SelectorKey} {outcomes : List Assignment}
    (hordered : ∀ outcome ∈ outcomes, outcome.Ordered) {indexes : List Nat}
    (hindexes : ∀ i ∈ indexes, i < outcomes.length)
    (hfits : ∀ key label, itemLabelCount (itemsAt outcomes indexes) key label < u64Limit) :
    ∃ combined, combineOutcomeOccurrences keys outcomes indexes = some combined ∧
      ∀ key label, Assignment.labelCount combined key label =
        itemLabelCount (itemsAt outcomes indexes) key label := by
  -- The fold from any assignment whose sum with the remaining items fits.
  have hfold : ∀ start : Assignment,
      (∀ key label, start.labelCount key label +
        itemLabelCount (itemsAt outcomes indexes) key label < u64Limit) →
      ∃ combined : Assignment, indexes.foldlM (fun combined index =>
          (outcomes[index]?).bind (addOutcome combined)) start = some combined ∧
        ∀ key label, combined.labelCount key label = start.labelCount key label +
          itemLabelCount (itemsAt outcomes indexes) key label := by
    clear hfits
    induction indexes with
    | nil => exact fun start _ => ⟨start, rfl, fun _ _ => rfl⟩
    | cons index indexes ih =>
      intro start hstart
      obtain ⟨hindex, hrest⟩ := List.forall_mem_cons.mp hindexes
      have hget := List.getElem?_eq_getElem hindex
      rw [itemsAt_cons hget] at hstart ⊢
      have hcons : ∀ key label, itemLabelCount (outcomes[index] :: itemsAt outcomes indexes) key
          label = Assignment.labelCount outcomes[index] key label +
            itemLabelCount (itemsAt outcomes indexes) key label := fun _ _ => rfl
      simp only [hcons] at hstart ⊢
      obtain ⟨next, hnext, hcount⟩ := addOutcome_eq (hordered _ (List.getElem_mem hindex))
        fun key label => by
          have h := hstart key label
          show Assignment.labelCount start key label + _ < u64Limit
          omega
      obtain ⟨combined, hcombined, htotal⟩ := ih hrest next fun key label => by
        have h := hstart key label
        rw [hcount]
        omega
      refine ⟨combined, ?_, fun key label => ?_⟩
      · rw [List.foldlM_cons, hget, Option.bind_some, hnext]
        exact hcombined
      · rw [htotal, hcount, Nat.add_assoc]
  have hzero := labelCount_emptyOutcome keys
  obtain ⟨combined, hcombined, hcount⟩ := hfold (emptyOutcome keys) fun key label => by
    rw [hzero, Nat.zero_add]
    exact hfits key label
  refine ⟨combined, hcombined, fun key label => ?_⟩
  rw [hcount, hzero, Nat.zero_add]

/-! ## Outcomes of one item -/

/-- Every control of the outcome reports one label once, or nothing. -/
def Assignment.Single (outcome : Assignment) : Prop :=
  ∀ entry ∈ outcome, entry.2 = [] ∨ ∃ label, entry.2 = [(label, 1)]

namespace Assignment.Single

theorem labelCount_le {outcome : Assignment} (h : outcome.Single) (key : SelectorKey)
    (label : EnumLabel) : outcome.labelCount key label ≤ 1 := by
  rw [labelCount, AssignedControl.labelCount]
  cases hget : OrdMap.get? outcome key with
  | none => exact Nat.zero_le 1
  | some control =>
    rcases h (key, control) (OrdMap.mem_of_get? hget) with hnone | ⟨reported, hone⟩
    · have hcontrol : control = [] := hnone
      rw [hcontrol]
      exact Nat.zero_le 1
    · have hcontrol : control = [(reported, 1)] := hone
      rw [hcontrol, Option.getD_some]
      by_cases hlabel : label = reported
      · rw [hlabel, OrdMap.get?_cons_self]
        exact Nat.le_refl 1
      · rw [OrdMap.get?_cons_ne hlabel]
        exact Nat.zero_le 1

theorem nil : Single [] := fun _ h => absurd h List.not_mem_nil

theorem insert {outcome : Assignment} (h : outcome.Single) (key : SelectorKey)
    {control : AssignedControl} (hcontrol : control = [] ∨ ∃ label, control = [(label, 1)]) :
    Single (OrdMap.insert key control outcome) := by
  intro entry hentry
  rcases OrdMap.mem_insert_imp hentry with rfl | hmem
  · exact hcontrol
  · exact h entry hmem

theorem foldl_insert {outcome : Assignment} (h : outcome.Single) (keys : List SelectorKey)
    {control : AssignedControl} (hcontrol : control = [] ∨ ∃ label, control = [(label, 1)]) :
    Single (keys.foldl (fun assignment key => OrdMap.insert key control assignment) outcome) := by
  induction keys generalizing outcome with
  | nil => exact h
  | cons key keys ih => exact ih (h.insert key hcontrol)

theorem extend {target source : Assignment} (htarget : target.Single) (hsource : source.Single) :
    Single (OrdMap.extend target source) := by
  induction source with
  | nil => exact htarget
  | cons entry source ih =>
    obtain ⟨hfirst, hrest⟩ := List.forall_mem_cons.mp hsource
    exact (ih hrest).insert entry.1 hfirst

theorem executionControls {outcome : Assignment} (h : outcome.Single) (keys : List SelectorKey) :
    (insertExecutionControls outcome keys).Single := by
  rw [insertExecutionControls]
  split
  · exact h
  · exact h.foldl_insert keys (.inr ⟨_, rfl⟩)

theorem successful (node : GraphNode) (keys : OutcomeKeys) :
    ∀ outcome ∈ successfulOutcomes node keys, outcome.Single := by
  have hfold : ∀ (emitted : List SelectorKey) (outcomes : List Assignment),
      (∀ outcome ∈ outcomes, outcome.Single) →
      ∀ outcome ∈ emitted.foldl (fun outcomes key =>
        cartesianEmittedOutcomes outcomes key (selectorKeyDomain key node)) outcomes,
        Single outcome := by
    intro emitted
    induction emitted with
    | nil => exact fun _ h => h
    | cons key emitted ih =>
      intro outcomes houtcomes
      refine ih _ fun outcome houtcome => ?_
      obtain ⟨part, hpart, hlabel⟩ := List.mem_flatMap.mp houtcome
      obtain ⟨label, -, rfl⟩ := List.mem_map.mp hlabel
      exact (houtcomes part hpart).insert key (.inr ⟨label, rfl⟩)
  intro outcome houtcome
  obtain ⟨emitted, hemitted, rfl⟩ := List.mem_map.mp houtcome
  have h := hfold keys.emitted [[]] (List.forall_mem_singleton.mpr nil) emitted hemitted
  exact (h.foldl_insert keys.errors (.inl rfl)).executionControls keys.executions

theorem error (keys : OutcomeKeys) (error : EnumLabel) : (errorOutcome keys error).Single :=
  ((nil.foldl_insert keys.emitted (.inl rfl)).executionControls keys.executions).foldl_insert
    keys.errors (.inr ⟨error, rfl⟩)

theorem mem_of_mem_dedup {outcome : Assignment} {outcomes : List Assignment}
    (h : outcome ∈ dedupAdjacent outcomes) : outcome ∈ outcomes := by
  induction outcomes using dedupAdjacent.induct with
  | case1 => exact h
  | case2 first => exact h
  | case3 first rest ih =>
    rw [dedupAdjacent, if_pos rfl] at h
    exact List.mem_cons_of_mem _ (ih h)
  | case4 first second rest hne ih =>
    rw [dedupAdjacent, if_neg hne] at h
    rcases List.mem_cons.mp h with rfl | hrest
    · exact List.mem_cons_self
    · exact List.mem_cons_of_mem _ (ih hrest)

theorem perExecution {node : GraphNode} {keys : List SelectorKey} {outcomes : List Assignment}
    (h : perExecutionOutcomes node keys = some outcomes) :
    ∀ outcome ∈ outcomes, outcome.Single := by
  rw [perExecutionOutcomes] at h
  split at h
  · cases h
  · split at h
    · cases h
    · cases h
      intro outcome houtcome
      rcases List.mem_append.mp (mem_of_mem_dedup houtcome) with hok | herror
      · exact successful node _ outcome hok
      · obtain ⟨label, -, rfl⟩ := List.mem_map.mp herror
        exact error _ label

theorem item {inputs : DimensionInputs} {scopeNodes : ScopeNodes} {name : NodeName}
    {outcomes : List Assignment} (h : itemDimension inputs scopeNodes name = some outcomes) :
    ∀ outcome ∈ outcomes, outcome.Single := by
  rw [itemDimension] at h
  split at h
  · obtain ⟨executed, hexecuted, rfl⟩ := Option.map_eq_some_iff.mp h
    intro outcome houtcome
    rcases List.mem_append.mp houtcome with hran | habsent
    · exact perExecution hexecuted outcome hran
    · rw [List.mem_singleton.mp habsent]
      exact nil.foldl_insert _ (.inl rfl)
  · cases h

theorem enumerate {dimensions : List (List Assignment)}
    (h : ∀ dimension ∈ dimensions, ∀ outcome ∈ dimension, Single outcome) :
    ∀ outcome ∈ enumerateAssignments dimensions, outcome.Single := by
  have hfold : ∀ assignments : List Assignment, (∀ outcome ∈ assignments, outcome.Single) →
      ∀ outcome ∈ dimensions.foldl extendAssignments assignments, Single outcome := by
    induction dimensions with
    | nil => exact fun _ h => h
    | cons dimension dimensions ih =>
      obtain ⟨hfirst, hrest⟩ := List.forall_mem_cons.mp h
      intro assignments hassignments
      refine ih hrest _ fun outcome houtcome => ?_
      obtain ⟨part, hpart, hmap⟩ := List.mem_flatMap.mp houtcome
      obtain ⟨added, hadded, rfl⟩ := List.mem_map.mp hmap
      exact (hassignments part hpart).extend (hfirst added (List.mem_filter.mp hadded).1)
  exact hfold [[]] (List.forall_mem_singleton.mpr nil)

theorem mem_of_mem_insertAssignment {outcome added : Assignment} {outcomes : List Assignment}
    (h : outcome ∈ insertAssignment added outcomes) : outcome = added ∨ outcome ∈ outcomes := by
  induction outcomes with
  | nil => exact .inl (List.mem_singleton.mp h)
  | cons first outcomes ih =>
    rw [insertAssignment] at h
    split at h
    · exact List.mem_cons.mp h
    · exact .inr h
    · rcases List.mem_cons.mp h with rfl | hrest
      · exact .inr List.mem_cons_self
      · exact (ih hrest).imp_right (List.mem_cons_of_mem _)

end Assignment.Single

theorem exists_of_mem_mapM {α β : Type} {f : α → Option β} {as : List α} {bs : List β}
    (h : as.mapM f = some bs) : ∀ b ∈ bs, ∃ a ∈ as, f a = some b := by
  induction as generalizing bs with
  | nil =>
    cases h
    exact fun _ hb => absurd hb List.not_mem_nil
  | cons a as ih =>
    rw [List.mapM_cons] at h
    obtain ⟨first, hfirst, h⟩ := Option.bind_eq_some_iff.mp h
    obtain ⟨rest, hrest, h⟩ := Option.bind_eq_some_iff.mp h
    cases h
    refine List.forall_mem_cons.mpr ⟨⟨a, List.mem_cons_self, hfirst⟩, fun b hb => ?_⟩
    obtain ⟨a', ha', hb'⟩ := ih hrest b hb
    exact ⟨a', List.mem_cons_of_mem _ ha', hb'⟩

/-- The aggregates of a map are taken over outcomes that report each label at most once. -/
theorem aggregateComponentDimension_single (inputs : DimensionInputs) (scopeNodes : ScopeNodes)
    (maximum : Nat) (shared : Assignment) (availableKeys : OrdSet SelectorKey)
    (component : OrdSet NodeName) :
    aggregateComponentDimension inputs scopeNodes maximum shared availableKeys component = none ∨
      ∃ keys outcomes, (∀ outcome ∈ outcomes, Assignment.Single outcome) ∧
        aggregateComponentDimension inputs scopeNodes maximum shared availableKeys component =
          aggregateAssignmentsFromOutcomes keys outcomes maximum := by
  rw [aggregateComponentDimension]
  dsimp only
  cases hdimensions : component.mapM (itemDimension inputs scopeNodes) with
  | none => exact .inl rfl
  | some dimensions =>
    dsimp only
    by_cases hproduct : (!dimensionProductIsBounded dimensions) = true
    · rw [if_pos hproduct]
      exact .inl rfl
    rw [if_neg hproduct]
    refine .inr ⟨_, _, ?_, rfl⟩
    have hsingle := Assignment.Single.enumerate fun dimension hdimension => by
      obtain ⟨name, -, hname⟩ := exists_of_mem_mapM hdimensions dimension hdimension
      exact Assignment.Single.item hname
    -- Sorting, hiding execution controls and dropping outcomes keep the controls that remain.
    have hsorted : ∀ outcomes : List Assignment, (∀ outcome ∈ outcomes, outcome.Single) →
        ∀ outcome ∈ outcomes.foldr insertAssignment [], Assignment.Single outcome := by
      intro outcomes
      induction outcomes with
      | nil => exact fun _ _ h => absurd h List.not_mem_nil
      | cons first outcomes ih =>
        intro h outcome houtcome
        obtain ⟨hfirst, hrest⟩ := List.forall_mem_cons.mp h
        rcases Assignment.Single.mem_of_mem_insertAssignment houtcome with rfl | hmem
        · exact hfirst
        · exact ih hrest outcome hmem
    refine hsorted _ fun outcome houtcome => ?_
    obtain ⟨whole, hwhole, rfl⟩ := List.mem_map.mp (List.mem_filter.mp houtcome).1
    intro entry hentry
    exact hsingle whole (List.mem_filter.mp hwhole).1 entry (List.mem_filter.mp hentry).1

/-! ## The aggregate -/

/-- A walk whose every visit appends what `combine` makes of the sequence appends it all. -/
theorem visitAll_collect {combine : List Nat → Option Assignment} {count : Nat}
    {visit : List Assignment → List Nat → List Assignment × Bool}
    (hvisit : ∀ collected indexes assignment, collected.length < count →
      combine indexes = some assignment →
        visit collected indexes = (collected ++ [assignment], true))
    {sequences : List (List Nat)} (hcombine : ∀ indexes ∈ sequences, (combine indexes).isSome)
    {collected : List Assignment} (hcount : collected.length + sequences.length ≤ count) :
    visitAll visit sequences collected = (collected ++ sequences.filterMap combine, true) := by
  induction sequences generalizing collected with
  | nil => rw [visitAll, List.filterMap_nil, List.append_nil]
  | cons indexes sequences ih =>
    obtain ⟨hfirst, hrest⟩ := List.forall_mem_cons.mp hcombine
    obtain ⟨assignment, hassignment⟩ := Option.isSome_iff_exists.mp hfirst
    rw [List.length_cons] at hcount
    rw [visitAll, hvisit collected indexes assignment (by omega) hassignment]
    dsimp only
    rw [ih hrest (by rw [List.length_append, List.length_singleton]; omega),
      List.filterMap_cons, hassignment, List.append_assoc]
    rfl

theorem length_filterMap_of_isSome {α β : Type} {f : α → Option β} {as : List α}
    (h : ∀ a ∈ as, (f a).isSome) : (as.filterMap f).length = as.length := by
  induction as with
  | nil => rfl
  | cons a as ih =>
    obtain ⟨hfirst, hrest⟩ := List.forall_mem_cons.mp h
    obtain ⟨b, hb⟩ := Option.isSome_iff_exists.mp hfirst
    rw [List.filterMap_cons, hb, List.length_cons, List.length_cons, ih hrest]

/-- Within the ceiling the aggregate combines the outcomes of every sequence. -/
theorem aggregateAssignmentsFromOutcomes_eq {keys : List SelectorKey} {outcomes : List Assignment}
    {maximum : Nat} (hlength : outcomes.length < u64Limit)
    (hbound : (maximum + outcomes.length).choose outcomes.length ≤ maxGuardAssignments)
    (hcombine : ∀ indexes ∈ sequencesUpTo outcomes.length maximum,
      (combineOutcomeOccurrences keys outcomes indexes).isSome) :
    aggregateAssignmentsFromOutcomes keys outcomes maximum =
      some ((sequencesUpTo outcomes.length maximum).filterMap
        (combineOutcomeOccurrences keys outcomes)) := by
  have hcount := length_sequencesUpTo outcomes.length maximum
  have hcollected := length_filterMap_of_isSome hcombine
  rw [aggregateAssignmentsFromOutcomes, boundedDistributionCount_eq hlength hbound]
  dsimp only
  rw [if_neg (Nat.not_lt.mpr hbound), forEachOutcomeMultiset_eq_visitAll,
    visitAll_collect (fun collected indexes assignment hroom hsome => ?_) hcombine
      (Nat.le_of_eq (by rw [List.length_nil, Nat.zero_add, hcount]))]
  · dsimp only
    rw [List.nil_append, hcollected, hcount]
    simp
  · rw [if_neg (Nat.not_le.mpr hroom), hsome]

/-- Above the ceiling there is no aggregate. -/
theorem aggregateAssignmentsFromOutcomes_eq_none {keys : List SelectorKey}
    {outcomes : List Assignment} {maximum : Nat}
    (hbound : maxGuardAssignments < (maximum + outcomes.length).choose outcomes.length) :
    aggregateAssignmentsFromOutcomes keys outcomes maximum = none := by
  rw [aggregateAssignmentsFromOutcomes]
  cases hcount : boundedDistributionCount maximum outcomes.length with
  | none => rfl
  | some count =>
    dsimp only
    rw [if_pos]
    by_contra hle
    have := eq_choose_of_boundedDistributionCount hcount (Nat.not_lt.mp hle)
    omega

/-- The multisets of items the walk visits, in order. -/
def itemMultisets (outcomes : List Assignment) (visited : List (List Nat)) :
    List (Multiset Assignment) :=
  visited.map fun indexes => Multiset.ofList (itemsAt outcomes indexes)

theorem nodup_itemMultisets {outcomes : List Assignment} (hdistinct : outcomes.Nodup)
    (maximum : Nat) :
    (itemMultisets outcomes (sequencesUpTo outcomes.length maximum)).Nodup := by
  refine List.Nodup.map_on ?_ (nodup_sequencesUpTo outcomes.length maximum)
  intro a ha b hb hsame
  obtain ⟨-, hasorted, habound⟩ := mem_sequencesUpTo.mp ha
  obtain ⟨-, hbsorted, hbbound⟩ := mem_sequencesUpTo.mp hb
  have hperm := (Multiset.coe_eq_coe.mp hsame).map outcomes.idxOf
  rw [map_idxOf_itemsAt hdistinct habound, map_idxOf_itemsAt hdistinct hbbound] at hperm
  exact hperm.eq_of_pairwise (fun _ _ _ _ => Nat.le_antisymm) hasorted hbsorted

/-- Every list of at most `maximum` items is, up to order, the items of a visited sequence. -/
theorem exists_sequence_of_items {outcomes items : List Assignment} {maximum : Nat}
    (hlength : items.length ≤ maximum) (hitems : ∀ outcome ∈ items, outcome ∈ outcomes) :
    ∃ indexes ∈ sequencesUpTo outcomes.length maximum,
      (itemsAt outcomes indexes).Perm items := by
  have hmem : Multiset.ofList (items.map outcomes.idxOf) ∈
      (sequencesUpTo outcomes.length maximum).map Multiset.ofList := by
    rw [mem_map_coe_sequencesUpTo]
    refine ⟨by simpa using hlength, fun index hindex => ?_⟩
    obtain ⟨outcome, houtcome, rfl⟩ := List.mem_map.mp hindex
    exact List.idxOf_lt_length_of_mem (hitems outcome houtcome)
  obtain ⟨indexes, hindexes, hsame⟩ := List.mem_map.mp hmem
  refine ⟨indexes, hindexes, ?_⟩
  have hperm : (itemsAt outcomes indexes).Perm (itemsAt outcomes (items.map outcomes.idxOf)) :=
    (Multiset.coe_eq_coe.mp hsame).filterMap _
  rwa [itemsAt_map_idxOf hitems] at hperm

theorem mem_itemMultisets {outcomes : List Assignment} {maximum : Nat} {s : Multiset Assignment} :
    s ∈ itemMultisets outcomes (sequencesUpTo outcomes.length maximum) ↔
      s.card ≤ maximum ∧ ∀ outcome ∈ s, outcome ∈ outcomes := by
  rw [itemMultisets, List.mem_map]
  constructor
  · rintro ⟨indexes, hindexes, rfl⟩
    exact ⟨(length_itemsAt_le outcomes indexes).trans (mem_sequencesUpTo.mp hindexes).1,
      fun _ => mem_of_mem_itemsAt⟩
  · induction s using Quotient.inductionOn with
    | h items =>
      rintro ⟨hlength, hitems⟩
      obtain ⟨indexes, hindexes, hperm⟩ := exists_sequence_of_items hlength hitems
      exact ⟨indexes, hindexes, Multiset.coe_eq_coe.mpr hperm⟩

theorem itemLabelCount_perm {items items' : List Assignment} (h : items.Perm items') :
    itemLabelCount items = itemLabelCount items' := by
  funext key label
  exact (h.map fun outcome => outcome.labelCount key label).sum_nat

/-- **Outcome multisets are enumerated exactly.** The walk visits each multiset of at most
`maximum` of the outcomes once, through indexes in range; within the ceiling the count is the number
of these multisets and the aggregate has exactly the label-count vectors of the lists of at most
`maximum` items; above the ceiling there is no aggregate. -/
theorem outcome_multisets_exact (keys : List SelectorKey) (outcomes : List Assignment)
    (maximum : Nat) (hdistinct : outcomes.Nodup) (hlength : outcomes.length < u64Limit)
    (hordered : ∀ outcome ∈ outcomes, outcome.Ordered)
    (hfits : ∀ outcome ∈ outcomes, ∀ key label,
      outcome.labelCount key label * maximum < u64Limit) :
    (∃ visited : List (List Nat),
      (∀ (σ : Type) (visit : σ → List Nat → σ × Bool) (state : σ),
        forEachOutcomeMultiset outcomes.length maximum visit state =
          visitAll visit visited state) ∧
      (∀ indexes ∈ visited, ∀ index ∈ indexes, index < outcomes.length) ∧
      visited.length = (maximum + outcomes.length).choose outcomes.length ∧
      (itemMultisets outcomes visited).Nodup ∧
      ∀ s : Multiset Assignment, s ∈ itemMultisets outcomes visited ↔
        s.card ≤ maximum ∧ ∀ outcome ∈ s, outcome ∈ outcomes) ∧
    ((maximum + outcomes.length).choose outcomes.length ≤ maxGuardAssignments →
      boundedDistributionCount maximum outcomes.length =
        some ((maximum + outcomes.length).choose outcomes.length) ∧
      ∃ assignments, aggregateAssignmentsFromOutcomes keys outcomes maximum = some assignments ∧
        ∀ vector : SelectorKey → EnumLabel → Nat,
          (∃ assignment ∈ assignments, Assignment.labelCount assignment = vector) ↔
            ∃ items : List Assignment, items.length ≤ maximum ∧
              (∀ outcome ∈ items, outcome ∈ outcomes) ∧ itemLabelCount items = vector) ∧
    (maxGuardAssignments < (maximum + outcomes.length).choose outcomes.length →
      aggregateAssignmentsFromOutcomes keys outcomes maximum = none) := by
  refine ⟨⟨sequencesUpTo outcomes.length maximum, ?_, ?_, length_sequencesUpTo _ _,
    nodup_itemMultisets hdistinct maximum, fun s => mem_itemMultisets⟩, fun hbound => ?_,
    aggregateAssignmentsFromOutcomes_eq_none⟩
  · exact fun σ visit state => forEachOutcomeMultiset_eq_visitAll _ visit maximum state
  · exact fun indexes hindexes => (mem_sequencesUpTo.mp hindexes).2.2
  -- What combining a visited sequence gives.
  have hcombine : ∀ indexes ∈ sequencesUpTo outcomes.length maximum, ∃ combined : Assignment,
      combineOutcomeOccurrences keys outcomes indexes = some combined ∧
        combined.labelCount = itemLabelCount (itemsAt outcomes indexes) := by
    intro indexes hindexes
    obtain ⟨hshort, -, hrange⟩ := mem_sequencesUpTo.mp hindexes
    obtain ⟨combined, hcombined, hcount⟩ := combineOutcomeOccurrences_eq hordered hrange
      fun key label => itemLabelCount_lt ((length_itemsAt_le outcomes indexes).trans hshort)
        fun outcome houtcome => hfits outcome (mem_of_mem_itemsAt houtcome) key label
    refine ⟨combined, hcombined, ?_⟩
    funext key label
    exact hcount key label
  refine ⟨boundedDistributionCount_eq hlength hbound, _,
    aggregateAssignmentsFromOutcomes_eq hlength hbound fun indexes hindexes => ?_, fun vector => ?_⟩
  · obtain ⟨combined, hcombined, -⟩ := hcombine indexes hindexes
    rw [hcombined]
    rfl
  constructor
  · rintro ⟨assignment, hassignment, rfl⟩
    obtain ⟨indexes, hindexes, hsome⟩ := List.mem_filterMap.mp hassignment
    obtain ⟨combined, hcombined, hcount⟩ := hcombine indexes hindexes
    rw [hsome] at hcombined
    cases hcombined
    exact ⟨itemsAt outcomes indexes,
      (length_itemsAt_le outcomes indexes).trans (mem_sequencesUpTo.mp hindexes).1,
      fun _ => mem_of_mem_itemsAt, hcount.symm⟩
  · rintro ⟨items, hshort, hitems, rfl⟩
    obtain ⟨indexes, hindexes, hperm⟩ := exists_sequence_of_items hshort hitems
    obtain ⟨combined, hcombined, hcount⟩ := hcombine indexes hindexes
    exact ⟨combined, List.mem_filterMap.mpr ⟨indexes, hindexes, hcombined⟩,
      hcount.trans (itemLabelCount_perm hperm)⟩

theorem validateIdentifier_item : validateIdentifier "item" = true := by decide

/-- The errors of the items of a map. -/
def itemErrors : SelectorKey := ⟨⟨"item", validateIdentifier_item⟩, .error, none⟩

/-- An item may end with any error. -/
def itemErrorOutcomes : List Assignment := errorLabels.map fun label => [(itemErrors, [(label, 1)])]

theorem outcome_multisets_exact_errors :
    boundedDistributionCount 2 itemErrorOutcomes.length = some 15 ∧
      ∃ assignments,
        aggregateAssignmentsFromOutcomes [itemErrors] itemErrorOutcomes 2 = some assignments ∧
        ∀ vector : SelectorKey → EnumLabel → Nat,
          (∃ assignment ∈ assignments, Assignment.labelCount assignment = vector) ↔
            ∃ items : List Assignment, items.length ≤ 2 ∧
              (∀ outcome ∈ items, outcome ∈ itemErrorOutcomes) ∧ itemLabelCount items = vector := by
  have hsingle : ∀ outcome ∈ itemErrorOutcomes, outcome.Ordered ∧ outcome.Single := by
    intro outcome houtcome
    obtain ⟨label, -, rfl⟩ := List.mem_map.mp houtcome
    refine ⟨⟨List.pairwise_singleton _ _, fun entry hentry => ?_⟩, fun entry hentry => ?_⟩
    · rw [List.mem_singleton.mp hentry]
      exact List.pairwise_singleton _ _
    · rw [List.mem_singleton.mp hentry]
      exact .inr ⟨label, rfl⟩
  exact (outcome_multisets_exact [itemErrors] itemErrorOutcomes 2 (by decide) (by decide)
    (fun outcome houtcome => (hsingle outcome houtcome).1) fun outcome houtcome key label =>
      Nat.lt_of_le_of_lt
        (Nat.mul_le_mul_right 2 ((hsingle outcome houtcome).2.labelCount_le key label))
        (by decide)).2.1 (by decide)

end Zeroshot
