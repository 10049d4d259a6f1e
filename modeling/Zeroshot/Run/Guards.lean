import Zeroshot.Lib.SortedMap
import Zeroshot.Reducer.Evaluation
import Zeroshot.Verifier.Control

set_option autoImplicit false

/-!
# Guards at run time and in the verifier

The reducer evaluates a guard on the control facts of its context, the verifier on an assignment
that counts labels. `Engine.observed` is the assignment a context amounts to in a map scope: for
every selector of the guard, how many of its visible occurrences carry each label. The two
evaluations then agree on every guard (`guard_eq_evaluateGuard`).
-/

namespace Zeroshot

/-! ## Selector keys -/

theorem ControlSelector.key_injective {a b : ControlSelector} (h : a.key = b.key) : a = b := by
  obtain ⟨_, sa, _⟩ := a
  obtain ⟨_, sb, _⟩ := b
  simp only [ControlSelector.key, SelectorKey.mk.injEq] at h
  obtain ⟨rfl, hs, rfl⟩ := h
  cases sa <;> cases sb <;> first | rfl | cases hs

/-! ## Tallies -/

/-- How often each label of a list occurs. -/
def tally (labels : List EnumLabel) : AssignedControl :=
  labels.foldr (fun label counts => OrdMap.alter label 0 (· + 1) counts) []

theorem get?_tally (labels : List EnumLabel) (label : EnumLabel) :
    (OrdMap.get? (tally labels) label).getD 0 = labels.count label := by
  induction labels with
  | nil => rfl
  | cons first labels ih =>
    change (OrdMap.get? (OrdMap.insert first _ (tally labels)) label).getD 0 = _
    by_cases h : label = first
    · subst h
      rw [OrdMap.get?_insert_self, List.count_cons_self, ← ih]
      rfl
    · rw [OrdMap.get?_insert_ne h, ih, List.count_cons_of_ne (Ne.symm h)]

theorem length_filter_cons {first : EnumLabel} {labels : List EnumLabel} (h : first ∉ labels)
    (found : List EnumLabel) :
    (found.filter fun label => decide (label ∈ first :: labels)).length =
      found.count first + (found.filter fun label => decide (label ∈ labels)).length := by
  induction found with
  | nil => rfl
  | cons label found ih =>
    by_cases hf : label = first
    · subst hf
      simp [h] at ih ⊢
      omega
    · by_cases hin : label ∈ labels
      · simp [hf, hin] at ih ⊢
        omega
      · simp [hf, hin] at ih ⊢
        omega

theorem sum_count {labels : List EnumLabel} (hnodup : labels.Nodup) (found : List EnumLabel) :
    (labels.map fun label => found.count label).sum =
      (found.filter fun label => decide (label ∈ labels)).length := by
  induction labels with
  | nil => simp
  | cons first labels ih =>
    rw [List.nodup_cons] at hnodup
    rw [List.map_cons, List.sum_cons, ih hnodup.2, length_filter_cons hnodup.1]

theorem NonEmptyEnumSet.nodup (labels : NonEmptyEnumSet) : labels.values.Nodup := by
  refine labels.increasing.imp fun hlt he => ?_
  rw [he, Std.ReflOrd.compare_self] at hlt
  cases hlt

/-! ## What a context shows of a selector -/

namespace Engine

/-- How many maps enclose the node of a selector. -/
def selectorDepth (engine : Engine) (selector : ControlSelector) : Nat :=
  (OrdMap.get? engine.mapDepths selector.name).getD 0

/-- A control fact is an occurrence of the selector that the map scope can see: it lies on the way
to the scope or below it. -/
def Visible (engine : Engine) (mapIndices : List Nat) (selector : ControlSelector)
    (key : ControlKey) : Prop :=
  key.node = selector.name ∧ key.source = selector.source ∧
    key.field = selector.field.map Identifier.asStr ∧
    key.mapIndices.length = engine.selectorDepth selector ∧
    (key.mapIndices <+: mapIndices ∨ mapIndices <+: key.mapIndices)

instance (engine : Engine) (mapIndices : List Nat) (selector : ControlSelector)
    (key : ControlKey) : Decidable (engine.Visible mapIndices selector key) :=
  inferInstanceAs (Decidable (_ ∧ _ ∧ _ ∧ _ ∧ _))

/-- The visible occurrences of a selector. -/
def occurrences (engine : Engine) (context : Context) (mapIndices : List Nat)
    (selector : ControlSelector) : List (ControlKey × Control) :=
  context.controls.filter fun entry => decide (engine.Visible mapIndices selector entry.1)

theorem eq_take_iff {short long : List Nat} {depth : Nat} (h : depth ≤ long.length) :
    short = long.take depth ↔
      short.length = depth ∧ (short <+: long ∨ long <+: short) := by
  constructor
  · rintro rfl
    exact ⟨List.length_take_of_le h, .inl (List.take_prefix depth long)⟩
  · rintro ⟨rfl, hinitial | hinitial⟩
    · exact List.prefix_iff_eq_take.mp hinitial
    · rw [hinitial.eq_of_length_le h, List.take_length]

theorem controlValues_eq (engine : Engine) (selector : ControlSelector) (context : Context)
    (mapIndices : List Nat) :
    engine.controlValues selector context mapIndices =
      (engine.occurrences context mapIndices selector).map fun entry => entry.2.asStr := by
  unfold controlValues occurrences
  dsimp only
  congr 1
  refine List.filter_congr fun entry _ => ?_
  rw [Bool.eq_iff_iff, decide_eq_true_iff]
  simp only [Visible, selectorDepth, Bool.and_eq_true, beq_iff_eq, and_assoc]
  refine and_congr_right fun _ => and_congr_right fun _ => and_congr_right fun _ => ?_
  by_cases hdepth : (OrdMap.get? engine.mapDepths selector.name).getD 0 > mapIndices.length
  · rw [if_pos hdepth, Bool.and_eq_true, beq_iff_eq, List.isPrefixOf_iff_prefix]
    constructor
    · exact fun h => ⟨h.2, .inr h.1⟩
    · rintro ⟨hlength, hbelow | habove⟩
      · have := hbelow.length_le
        omega
      · exact ⟨habove, hlength⟩
  · rw [if_neg hdepth, beq_iff_eq]
    exact eq_take_iff (Nat.le_of_not_lt hdepth)

/-- The labels the visible occurrences of a selector carry. -/
def visibleLabels (engine : Engine) (context : Context) (mapIndices : List Nat)
    (selector : ControlSelector) : List EnumLabel :=
  ((engine.occurrences context mapIndices selector).map fun entry => entry.2.asStr).filterMap
    enumLabel

/-- The assignment a context amounts to in a map scope, for the selectors of a guard. -/
def observed (engine : Engine) (context : Context) (mapIndices : List Nat)
    (selectors : List ControlSelector) : Assignment :=
  OrdMap.ofList (selectors.map fun selector =>
    (selector.key, tally (engine.visibleLabels context mapIndices selector)))

theorem get?_observed {engine : Engine} {context : Context} {mapIndices : List Nat}
    {selectors : List ControlSelector} {selector : ControlSelector} (h : selector ∈ selectors) :
    OrdMap.get? (engine.observed context mapIndices selectors) selector.key =
      some (tally (engine.visibleLabels context mapIndices selector)) := by
  unfold observed OrdMap.ofList
  rw [OrdMap.get?_extend]
  suffices hget : OrdMap.get? (selectors.map fun selector =>
      (selector.key, tally (engine.visibleLabels context mapIndices selector))) selector.key =
      some (tally (engine.visibleLabels context mapIndices selector)) by
    rw [hget]
    rfl
  induction selectors with
  | nil => cases h
  | cons first selectors ih =>
    rw [List.map_cons]
    by_cases hkey : selector.key = first.key
    · cases ControlSelector.key_injective hkey
      exact OrdMap.get?_cons_self _ _ _
    · rw [OrdMap.get?_cons_ne hkey]
      refine ih ((List.mem_cons.mp h).resolve_left ?_)
      rintro rfl
      exact hkey rfl

/-! ## Labels -/

theorem enumLabel_eq_some {text : String} {label : EnumLabel} :
    enumLabel text = some label ↔ text = label.asStr := by
  obtain ⟨name, hvalid⟩ := label
  unfold enumLabel Identifier.new
  constructor
  · intro h
    split at h
    · cases h
      rfl
    · cases h
  · rintro rfl
    rw [dif_pos hvalid]

theorem contains_asStr (labels : NonEmptyEnumSet) (label : EnumLabel) :
    labels.contains label.asStr = decide (label ∈ labels.values) := by
  rw [Bool.eq_iff_iff, decide_eq_true_iff, NonEmptyEnumSet.contains, List.any_eq_true]
  constructor
  · rintro ⟨known, hin, he⟩
    exact Identifier.asStr_inj.mp (beq_iff_eq.mp he) ▸ hin
  · exact fun hin => ⟨label, hin, by simp⟩

theorem contains_eq_false {labels : NonEmptyEnumSet} {text : String} (h : enumLabel text = none) :
    labels.contains text = false := by
  rw [NonEmptyEnumSet.contains, List.any_eq_false]
  intro label _ he
  have htext : text = label.asStr := (beq_iff_eq.mp he).symm
  rw [enumLabel_eq_some.mpr htext] at h
  cases h

/-- The texts a label set selects, counted as texts and as labels. -/
theorem length_filter_contains (labels : NonEmptyEnumSet) (texts : List String) :
    (texts.filter labels.contains).length =
      ((texts.filterMap enumLabel).filter fun label => decide (label ∈ labels.values)).length := by
  induction texts with
  | nil => rfl
  | cons text texts ih =>
    cases hlabel : enumLabel text with
    | none =>
      rw [List.filter_cons_of_neg (by simp [contains_eq_false hlabel]), ih,
        List.filterMap_cons_none hlabel]
    | some label =>
      rw [List.filterMap_cons_some hlabel, List.filter_cons, List.filter_cons,
        enumLabel_eq_some.mp hlabel, contains_asStr]
      split
      · rw [List.length_cons, List.length_cons, ih]
      · exact ih

theorem any_contains (labels : NonEmptyEnumSet) (texts : List String) :
    texts.any labels.contains = decide (0 < (texts.filter labels.contains).length) := by
  rw [Bool.eq_iff_iff, decide_eq_true_iff, List.length_pos_iff, List.any_eq_true]
  simp [List.filter_eq_nil_iff]

/-! ## Agreement -/

section

variable {engine : Engine} {context : Context} {mapIndices : List Nat}
  {selectors : List ControlSelector} {selector : ControlSelector}

theorem occurrences_agree (labels : NonEmptyEnumSet) (h : selector ∈ selectors) :
    selectorOccurrences selector labels (engine.observed context mapIndices selectors) =
      ((engine.controlValues selector context mapIndices).filter labels.contains).length := by
  rw [selectorOccurrences, get?_observed h, controlValues_eq, length_filter_contains]
  simp only [get?_tally]
  exact sum_count labels.nodup _

/-- Some label occurs exactly when their occurrences do not add up to zero. -/
theorem selectorMatches_eq (labels : NonEmptyEnumSet) (assignment : Assignment) :
    selectorMatches selector labels assignment =
      decide (0 < selectorOccurrences selector labels assignment) := by
  unfold selectorMatches selectorOccurrences
  cases OrdMap.get? assignment selector.key with
  | none => rfl
  | some counts =>
    rw [Bool.eq_iff_iff, decide_eq_true_iff, List.any_eq_true, List.sum_pos_iff_exists_pos_nat]
    simp only [decide_eq_true_iff, List.mem_map, exists_exists_and_eq_and]

theorem matches_agree (labels : NonEmptyEnumSet) (h : selector ∈ selectors) :
    selectorMatches selector labels (engine.observed context mapIndices selectors) =
      engine.selectorIn context mapIndices labels selector := by
  rw [selectorMatches_eq, occurrences_agree labels h, selectorIn, any_contains]

/-- The two evaluations agree on every guard whose selectors the assignment covers. -/
theorem guard_agrees (guard : Guard) (h : ∀ selector ∈ guard.selectors, selector ∈ selectors) :
    engine.guard context mapIndices guard =
      evaluateGuard (engine.observed context mapIndices selectors) guard := by
  revert h
  refine @Guard.rec
    (fun guard => (∀ selector ∈ guard.selectors, selector ∈ selectors) →
      engine.guard context mapIndices guard =
        evaluateGuard (engine.observed context mapIndices selectors) guard)
    (fun guards => (∀ selector ∈ selectorsOf guards, selector ∈ selectors) →
      engine.guardAll context mapIndices guards =
        evaluateAll (engine.observed context mapIndices selectors) guards ∧
      engine.guardAny context mapIndices guards =
        evaluateAny (engine.observed context mapIndices selectors) guards)
    ?_ ?_ ?_ ?_ ?_ ?_ ?_ ?_ guard
  · intro value labels h
    rw [Engine.guard, evaluateGuard, matches_agree labels (h value (List.mem_singleton_self _))]
  · intro guards ih h
    rw [Engine.guard, evaluateGuard, (ih h).1]
  · intro guards ih h
    rw [Engine.guard, evaluateGuard, (ih h).2]
  · intro guard ih h
    rw [Engine.guard, evaluateGuard, ih h]
  · intro count values labels h
    have hfilter : values.filter (engine.selectorIn context mapIndices labels) =
        values.filter fun selector => selectorMatches selector labels
          (engine.observed context mapIndices selectors) :=
      List.filter_congr fun selector hin => (matches_agree labels (h selector hin)).symm
    rw [Engine.guard, evaluateGuard, hfilter]
  · intro count value labels h
    rw [Engine.guard, evaluateGuard,
      occurrences_agree labels (h value (List.mem_singleton_self _))]
  · exact fun _ => ⟨rfl, rfl⟩
  · intro guard guards ih ihs h
    have hhead := ih fun selector hin => h selector (List.mem_append_left _ hin)
    have htail := ihs fun selector hin => h selector (List.mem_append_right _ hin)
    constructor
    · rw [Engine.guardAll, evaluateAll, hhead, htail.1]
    · rw [Engine.guardAny, evaluateAny, hhead, htail.2]

/-- A label is counted once for each visible occurrence that carries it. -/
theorem count_visibleLabels (label : EnumLabel) :
    (engine.visibleLabels context mapIndices selector).count label =
      ((engine.occurrences context mapIndices selector).filter
        fun entry => entry.2.asStr == label.asStr).length := by
  unfold visibleLabels
  induction engine.occurrences context mapIndices selector with
  | nil => rfl
  | cons entry entries ih =>
    rw [List.map_cons]
    by_cases htext : entry.2.asStr = label.asStr
    · rw [List.filterMap_cons_some (enumLabel_eq_some.mpr htext), List.count_cons_self, ih,
        List.filter_cons_of_pos (by simpa using htext), List.length_cons]
    · rw [List.filter_cons_of_neg (by simpa using htext), ← ih]
      cases hlabel : enumLabel entry.2.asStr with
      | none => rw [List.filterMap_cons_none hlabel]
      | some found =>
        rw [List.filterMap_cons_some hlabel, List.count_cons_of_ne]
        rintro rfl
        exact htext (enumLabel_eq_some.mp hlabel)

theorem occurrences_nodup (hsorted : context.controls.Sorted) :
    ((engine.occurrences context mapIndices selector).map fun entry =>
      entry.1.mapIndices).Nodup := by
  rw [List.Nodup, List.pairwise_map]
  refine (hsorted.filter _).imp_of_mem fun {a b} ha hb hlt he => ?_
  obtain ⟨-, ha⟩ := List.mem_filter.mp ha
  obtain ⟨-, hb⟩ := List.mem_filter.mp hb
  obtain ⟨hna, hsa, hfa, -⟩ := of_decide_eq_true ha
  obtain ⟨hnb, hsb, hfb, -⟩ := of_decide_eq_true hb
  have hkey : a.1 = b.1 := by
    obtain ⟨⟨_, _, _, _⟩, _⟩ := a
    obtain ⟨⟨_, _, _, _⟩, _⟩ := b
    simp_all
  rw [hkey, Std.ReflOrd.compare_self] at hlt
  cases hlt

/-- At or above the scope there is at most one visible occurrence. -/
theorem occurrences_length_le (hsorted : context.controls.Sorted)
    (hdepth : engine.selectorDepth selector ≤ mapIndices.length) :
    (engine.occurrences context mapIndices selector).length ≤ 1 := by
  have hsame : ∀ indices ∈ (engine.occurrences context mapIndices selector).map
      (fun entry => entry.1.mapIndices),
      indices = mapIndices.take (engine.selectorDepth selector) := by
    intro indices hin
    obtain ⟨entry, hentry, rfl⟩ := List.mem_map.mp hin
    obtain ⟨-, hvisible⟩ := List.mem_filter.mp hentry
    obtain ⟨-, -, -, hrest⟩ := of_decide_eq_true hvisible
    exact (eq_take_iff hdepth).mpr hrest
  have hnodup := @occurrences_nodup engine context mapIndices selector hsorted
  rw [List.eq_replicate_of_mem hsame, List.nodup_replicate] at hnodup
  simpa using hnodup

end

/-- **Guards at run time and in the verifier.** On the assignment that counts, for each selector of
the guard, the visible occurrences carrying each label, the verifier's evaluation is the reducer's.
A selector at or above the scope has at most one visible occurrence, a deeper one at most one for
each item. -/
theorem guard_eq_evaluateGuard (engine : Engine) (context : Context) (mapIndices : List Nat)
    (guard : Guard) :
    engine.guard context mapIndices guard =
        evaluateGuard (engine.observed context mapIndices guard.selectors) guard ∧
      ∀ selector ∈ guard.selectors, ∃ counts,
        OrdMap.get? (engine.observed context mapIndices guard.selectors) selector.key =
          some counts ∧
        (∀ label, (OrdMap.get? counts label).getD 0 =
          ((engine.occurrences context mapIndices selector).filter
            fun entry => entry.2.asStr == label.asStr).length) ∧
        (context.controls.Sorted →
          (engine.selectorDepth selector ≤ mapIndices.length →
            (engine.occurrences context mapIndices selector).length ≤ 1) ∧
          ((engine.occurrences context mapIndices selector).map fun entry =>
            entry.1.mapIndices).Nodup) := by
  refine ⟨guard_agrees guard fun _ h => h, fun selector hin => ?_⟩
  refine ⟨_, get?_observed hin, fun label => ?_, fun hsorted => ?_⟩
  · rw [get?_tally, count_visibleLabels]
  · exact ⟨occurrences_length_le hsorted, occurrences_nodup hsorted⟩

end Engine

end Zeroshot
