import Zeroshot.Reducer.Values
import Mathlib.Order.Antichain

set_option autoImplicit false

/-!
# What a path sees of a write

`setPath` changes a state at one path. Two paths are `Apart` when neither lies at or above the
other; a path sees nothing of a write apart from it, and what lies at or below the written path is
read off the written value. A write below a value that is no object fails.
-/

namespace Zeroshot

/-! ## Selecting along segments -/

theorem selectSegments_cons (value : Value) (segment : FieldName) (segments : List FieldName) :
    selectSegments value (segment :: segments) =
      match value.asObject.bind fun object => OrdMap.get? object segment.asStr with
      | some child => selectSegments child segments
      | none => .error .missingSelectedValue := rfl

theorem selectSegments_append (value : Value) (first second : List FieldName) :
    selectSegments value (first ++ second) =
      (selectSegments value first).bind fun child => selectSegments child second := by
  induction first generalizing value with
  | nil => rfl
  | cons segment first ih =>
    rw [List.cons_append, selectSegments_cons, selectSegments_cons]
    cases value.asObject.bind fun object => OrdMap.get? object segment.asStr with
    | none => rfl
    | some child => exact ih child

theorem selectSegments_of_not_object {value : Value} (h : value.asObject = none)
    {segments : List FieldName} (hne : segments ≠ []) :
    selectSegments value segments = .error .missingSelectedValue := by
  cases segments with
  | nil => exact absurd rfl hne
  | cons segment segments => rw [selectSegments_cons, h]; rfl

theorem selectSegments_error {value : Value} {segments : List FieldName} {error : ReducerError}
    (h : selectSegments value segments = .error error) : error = .missingSelectedValue := by
  induction segments generalizing value with
  | nil => cases h
  | cons segment segments ih =>
    rw [selectSegments_cons] at h
    cases hchild : value.asObject.bind fun object => OrdMap.get? object segment.asStr with
    | none =>
      rw [hchild] at h
      cases h
      rfl
    | some child =>
      rw [hchild] at h
      exact ih h

/-! ## Setting along segments -/

theorem setSegments_cons_cons {value selected value' : Value} {segment next : FieldName}
    {rest : List FieldName}
    (h : setSegments value selected (segment :: next :: rest) = .ok value') :
    ∃ object child, value = .object object ∧
      setSegments ((OrdMap.get? object segment.asStr).getD (.object [])) selected (next :: rest) =
        .ok child ∧
      value' = .object (OrdMap.insert segment.asStr child object) := by
  rw [setSegments] at h
  cases value <;> simp only [Value.asObject] at h <;> try cases h
  rename_i object
  cases hchild : setSegments ((OrdMap.get? object segment.asStr).getD (.object [])) selected
      (next :: rest) with
  | error e => rw [hchild] at h; cases h
  | ok child =>
    rw [hchild] at h
    cases h
    exact ⟨object, child, rfl, hchild, rfl⟩

theorem setSegments_singleton {value selected value' : Value} {last : FieldName}
    (h : setSegments value selected [last] = .ok value') :
    ∃ object, value = .object object ∧
      value' = .object (OrdMap.insert last.asStr selected object) := by
  rw [setSegments] at h
  cases value <;> simp only [Value.asObject] at h <;> cases h
  exact ⟨_, rfl, rfl⟩

theorem selectSegments_object (object : OrdMap String Value) (segment : FieldName)
    (segments : List FieldName) :
    selectSegments (.object object) (segment :: segments) =
      match OrdMap.get? object segment.asStr with
      | some child => selectSegments child segments
      | none => .error .missingSelectedValue := rfl

theorem selectSegments_setSegments_self {value selected value' : Value}
    {segments : List FieldName} (h : setSegments value selected segments = .ok value') :
    selectSegments value' segments = .ok selected := by
  induction segments generalizing value value' with
  | nil => cases h
  | cons segment segments ih =>
    cases segments with
    | nil =>
      obtain ⟨object, rfl, rfl⟩ := setSegments_singleton h
      rw [selectSegments_object, OrdMap.get?_insert_self]
      rfl
    | cons next rest =>
      obtain ⟨object, child, rfl, hchild, rfl⟩ := setSegments_cons_cons h
      rw [selectSegments_object, OrdMap.get?_insert_self]
      exact ih hchild

/-- A path that is neither at, above nor below the written one sees nothing of the write. -/
theorem selectSegments_setSegments_apart {value selected value' : Value}
    {segments other : List FieldName} (h : setSegments value selected segments = .ok value')
    (hbelow : ¬ segments <+: other) (habove : ¬ other <+: segments) :
    selectSegments value' other = selectSegments value other := by
  induction segments generalizing value value' other with
  | nil => cases h
  | cons segment segments ih =>
    cases other with
    | nil => exact absurd List.nil_prefix habove
    | cons first other =>
      cases segments with
      | nil =>
        obtain ⟨object, rfl, rfl⟩ := setSegments_singleton h
        have hne : first.asStr ≠ segment.asStr := by
          intro he
          cases Identifier.asStr_inj.mp he
          exact hbelow ⟨other, rfl⟩
        rw [selectSegments_object, selectSegments_object, OrdMap.get?_insert_ne hne]
      | cons next rest =>
        obtain ⟨object, child, rfl, hchild, rfl⟩ := setSegments_cons_cons h
        rw [selectSegments_object, selectSegments_object]
        by_cases hname : first.asStr = segment.asStr
        · cases Identifier.asStr_inj.mp hname
          have hbelow' : ¬ next :: rest <+: other := fun hp =>
            hbelow (List.cons_prefix_cons.mpr ⟨rfl, hp⟩)
          have habove' : ¬ other <+: next :: rest := fun hp =>
            habove (List.cons_prefix_cons.mpr ⟨rfl, hp⟩)
          have hrest := ih hchild hbelow' habove'
          rw [OrdMap.get?_insert_self]
          cases hget : OrdMap.get? object segment.asStr with
          | some old =>
            rw [hget] at hrest
            exact hrest
          | none =>
            -- a parent created for the write holds nothing apart from it
            rw [hget] at hrest
            cases other with
            | nil => exact absurd List.nil_prefix habove'
            | cons second other => exact hrest
        · rw [OrdMap.get?_insert_ne hname]

/-- A write goes through objects only. -/
theorem setSegments_object_above {value selected value' above : Value}
    {first second : List FieldName} (hne : second ≠ [])
    (h : setSegments value selected (first ++ second) = .ok value')
    (hselect : selectSegments value first = .ok above) : above.asObject.isSome = true := by
  induction first generalizing value value' with
  | nil =>
    cases hselect
    cases second with
    | nil => exact absurd rfl hne
    | cons segment second =>
      cases second with
      | nil =>
        obtain ⟨object, rfl, -⟩ := setSegments_singleton h
        rfl
      | cons next rest =>
        obtain ⟨object, child, rfl, -, -⟩ := setSegments_cons_cons h
        rfl
  | cons segment first ih =>
    cases hrest : first ++ second with
    | nil => exact absurd (List.append_eq_nil_iff.mp hrest).2 hne
    | cons next rest =>
      rw [List.cons_append, hrest] at h
      obtain ⟨object, child, rfl, hchild, -⟩ := setSegments_cons_cons h
      rw [selectSegments_object] at hselect
      cases hget : OrdMap.get? object segment.asStr with
      | none => rw [hget] at hselect; cases hselect
      | some old =>
        rw [hget] at hselect hchild
        rw [← hrest] at hchild
        exact ih hchild hselect

/-! ## Paths -/

namespace FieldPath

theorem contains_iff {parent child : FieldPath} :
    parent.contains child = true ↔ parent.segments <+: child.segments :=
  List.isPrefixOf_iff_prefix

theorem contains_refl (path : FieldPath) : path.contains path = true :=
  contains_iff.mpr (List.prefix_refl _)

theorem contains_trans {a b c : FieldPath} (hab : a.contains b = true)
    (hbc : b.contains c = true) : a.contains c = true :=
  contains_iff.mpr ((contains_iff.mp hab).trans (contains_iff.mp hbc))

theorem eq_of_segments {a b : FieldPath} (h : a.segments = b.segments) : a = b := by
  cases a
  cases b
  cases h
  rfl

theorem contains_antisymm {a b : FieldPath} (hab : a.contains b = true)
    (hba : b.contains a = true) : a = b := by
  have hlength := (contains_iff.mp hba).length_le
  exact eq_of_segments ((contains_iff.mp hab).eq_of_length_le hlength)

/-- One path lies at or above the other. -/
def Meets (a b : FieldPath) : Prop := a.contains b = true ∨ b.contains a = true

instance (a b : FieldPath) : Decidable (a.Meets b) := inferInstanceAs (Decidable (_ ∨ _))

theorem Meets.symm {a b : FieldPath} (h : a.Meets b) : b.Meets a := Or.symm h

theorem meets_refl (path : FieldPath) : path.Meets path := .inl (contains_refl path)

theorem meets_of_above {a b c : FieldPath} (ha : a.contains c = true) (hb : b.contains c = true) :
    a.Meets b := by
  rw [contains_iff] at ha hb
  rcases Nat.le_total a.segments.length b.segments.length with h | h
  · exact .inl (contains_iff.mpr (List.prefix_of_prefix_length_le ha hb h))
  · exact .inr (contains_iff.mpr (List.prefix_of_prefix_length_le hb ha h))

theorem Meets.of_above {a b c : FieldPath} (h : b.Meets c) (hab : a.contains b = true) :
    a.Meets c := by
  rcases h with h | h
  · exact .inl (contains_trans hab h)
  · exact meets_of_above hab h

end FieldPath

/-! ## Topmost paths -/

/-- No other path of the list lies above the path. -/
def Topmost (collected : List FieldPath) (path : FieldPath) : Prop :=
  ∀ other ∈ collected, other.contains path = true → other = path

/-- Above every path of a list lies a topmost one. -/
theorem exists_topmost {paths : List FieldPath} {path : FieldPath} (hin : path ∈ paths) :
    ∃ top ∈ paths, top.contains path = true ∧ Topmost paths top := by
  induction hlength : path.segments.length using Nat.strong_induction_on generalizing path with
  | _ length ih =>
    by_cases htop : Topmost paths path
    · exact ⟨path, hin, FieldPath.contains_refl path, htop⟩
    · simp only [Topmost, not_forall] at htop
      obtain ⟨other, hother, habove, hne⟩ := htop
      have hinitial := FieldPath.contains_iff.mp habove
      have hshorter : other.segments.length < length := by
        refine Nat.lt_of_le_of_ne (hlength ▸ hinitial.length_le) fun he => hne ?_
        exact FieldPath.eq_of_segments (hinitial.eq_of_length (he.trans hlength.symm))
      obtain ⟨top, htop, hcontains, htopmost⟩ := ih _ hshorter hother rfl
      exact ⟨top, htop, FieldPath.contains_trans hcontains habove, htopmost⟩

/-! ## Promoted write paths -/

section

variable {writes : OrdSet FieldPath} {promoted : List FieldPath} {path : FieldPath}

theorem mem_writeCandidates :
    path ∈ writeCandidates writes promoted ↔ ∃ target ∈ promoted, ∃ written ∈ writes,
      (target.contains written = true ∧ path = written) ∨
        (target.contains written = false ∧ written.contains target = true ∧ path = target) := by
  unfold writeCandidates OrdSet.ofList
  rw [OrdSet.mem_extend, List.mem_flatMap]
  simp only [List.not_mem_nil, or_false, List.mem_filterMap]
  refine exists_congr fun target => and_congr_right fun _ => exists_congr fun written =>
    and_congr_right fun _ => ?_
  cases hbelow : target.contains written with
  | true =>
    simp only [if_true, Option.some.injEq, true_and, Bool.true_eq_false, false_and, or_false]
    exact eq_comm
  | false =>
    cases habove : written.contains target with
    | true =>
      simp only [Bool.false_eq_true, if_false, if_true, Option.some.injEq, true_and, false_and,
        false_or]
      exact eq_comm
    | false => simp

theorem exists_writeCandidate {written target : FieldPath} (hwritten : written ∈ writes)
    (htarget : target ∈ promoted) (hmeets : written.Meets target) :
    ∃ candidate ∈ writeCandidates writes promoted, candidate = written ∨ candidate = target := by
  by_cases hbelow : target.contains written = true
  · refine ⟨written, mem_writeCandidates.mpr ?_, .inl rfl⟩
    exact ⟨target, htarget, written, hwritten, .inl ⟨hbelow, rfl⟩⟩
  · refine ⟨target, mem_writeCandidates.mpr ?_, .inr rfl⟩
    refine ⟨target, htarget, written, hwritten, .inr ⟨Bool.eq_false_iff.mpr hbelow, ?_, rfl⟩⟩
    exact hmeets.resolve_right hbelow

theorem writeCandidates_below (h : path ∈ writeCandidates writes promoted) :
    (∃ written ∈ writes, written.contains path = true) ∧
      ∃ target ∈ promoted, target.contains path = true := by
  obtain ⟨target, htarget, written, hwritten, hcase⟩ := mem_writeCandidates.mp h
  rcases hcase with ⟨hbelow, rfl⟩ | ⟨-, habove, rfl⟩
  · exact ⟨⟨path, hwritten, FieldPath.contains_refl path⟩, target, htarget, hbelow⟩
  · exact ⟨⟨written, hwritten, habove⟩, path, htarget, FieldPath.contains_refl path⟩

/-- The promoted paths are the topmost candidates. -/
theorem mem_promotedWritePaths :
    path ∈ promotedWritePaths writes promoted ↔
      path ∈ writeCandidates writes promoted ∧
        Topmost (writeCandidates writes promoted) path := by
  unfold promotedWritePaths Topmost
  rw [List.mem_filter, Bool.not_eq_true', Bool.eq_false_iff, ne_eq, List.any_eq_true]
  refine and_congr_right fun _ => ?_
  simp only [Bool.and_eq_true, bne_iff_ne, not_exists, not_and]
  refine forall₂_congr fun other _ => ⟨fun h habove => ?_, fun h hne habove => hne (h habove)⟩
  by_contra hne
  exact h hne habove

theorem exists_promotedWritePath (h : path ∈ writeCandidates writes promoted) :
    ∃ member ∈ promotedWritePaths writes promoted, member.contains path = true := by
  obtain ⟨top, hin, hcontains, htop⟩ := exists_topmost h
  exact ⟨top, mem_promotedWritePaths.mpr ⟨hin, htop⟩, hcontains⟩

/-- Every promoted write lies at or below a recorded one and a promoted path. -/
theorem promotedWritePaths_below (h : path ∈ promotedWritePaths writes promoted) :
    (∃ written ∈ writes, written.contains path = true) ∧
      ∃ target ∈ promoted, target.contains path = true :=
  writeCandidates_below (mem_promotedWritePaths.mp h).1

end

/-- **Promoted write paths**: no promoted path lies below another one, and what lies at or below
them is what lies at or below both a written and a promoted path. -/
theorem promotedWritePaths_antichain (writes : OrdSet FieldPath) (promoted : List FieldPath) :
    IsAntichain (fun parent child => parent.contains child = true)
        {path | path ∈ promotedWritePaths writes promoted} ∧
      ∀ path : FieldPath,
        (∃ member ∈ promotedWritePaths writes promoted, member.contains path = true) ↔
          (∃ written ∈ writes, written.contains path = true) ∧
            ∃ target ∈ promoted, target.contains path = true := by
  constructor
  · intro first hfirst second hsecond hne habove
    have htop := (mem_promotedWritePaths.mp hsecond).2
    exact hne (htop first (mem_promotedWritePaths.mp hfirst).1 habove)
  · intro path
    constructor
    · rintro ⟨member, hmember, hcontains⟩
      obtain ⟨⟨written, hwritten, habove⟩, target, htarget, habove'⟩ :=
        promotedWritePaths_below hmember
      exact ⟨⟨written, hwritten, FieldPath.contains_trans habove hcontains⟩,
        target, htarget, FieldPath.contains_trans habove' hcontains⟩
    · rintro ⟨⟨written, hwritten, habove⟩, target, htarget, habove'⟩
      -- Two paths above one path meet, so one of them is a candidate above it.
      have hmeets := FieldPath.meets_of_above habove habove'
      obtain ⟨candidate, hin, hcandidate⟩ := exists_writeCandidate hwritten htarget hmeets
      have hcontains : candidate.contains path = true := by
        rcases hcandidate with rfl | rfl
        · exact habove
        · exact habove'
      obtain ⟨member, hmember, htop⟩ := exists_promotedWritePath hin
      exact ⟨member, hmember, FieldPath.contains_trans htop hcontains⟩

/-! ## Selecting after a write -/

section

variable {state state' selected : Value} {path other : FieldPath}

theorem select_setPath_self (h : setPath state path selected = .ok state') :
    select state' path = .ok selected := selectSegments_setSegments_self h

theorem select_setPath_apart (h : setPath state path selected = .ok state')
    (hapart : ¬ path.Meets other) : select state' other = select state other := by
  refine selectSegments_setSegments_apart h (fun hp => ?_) (fun hp => ?_)
  · exact hapart (.inl (FieldPath.contains_iff.mpr hp))
  · exact hapart (.inr (FieldPath.contains_iff.mpr hp))

theorem select_below {above : Value} (hcontains : path.contains other = true)
    (h : select state path = .ok above) :
    ∃ rest, other.segments = path.segments ++ rest ∧
      select state other = selectSegments above rest := by
  obtain ⟨rest, hrest⟩ := FieldPath.contains_iff.mp hcontains
  refine ⟨rest, hrest.symm, ?_⟩
  rw [select, ← hrest, selectSegments_append]
  rw [select] at h
  rw [h]
  rfl

theorem select_below_array {items : List Value} (hcontains : path.contains other = true)
    (hne : path ≠ other) (h : select state path = .ok (.array items)) :
    select state other = .error .missingSelectedValue := by
  obtain ⟨rest, hrest, hselect⟩ := select_below hcontains h
  rw [hselect]
  refine selectSegments_of_not_object rfl fun hnil => ?_
  rw [hnil, List.append_nil] at hrest
  exact hne (FieldPath.eq_of_segments hrest.symm)

/-- Nothing is written strictly below an array. -/
theorem setPath_below_array {items : List Value} (hcontains : path.contains other = true)
    (hne : path ≠ other) (h : select state path = .ok (.array items)) :
    setPath state other selected ≠ .ok state' := by
  intro hset
  obtain ⟨rest, hrest⟩ := FieldPath.contains_iff.mp hcontains
  have hrestne : rest ≠ [] := by
    rintro rfl
    rw [List.append_nil] at hrest
    exact hne (FieldPath.eq_of_segments hrest)
  rw [setPath, ← hrest] at hset
  have hobject := setSegments_object_above hrestne hset h
  cases hobject

end

end Zeroshot
