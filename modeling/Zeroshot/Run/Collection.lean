import Zeroshot.Reducer.Paths
import Zeroshot.Run.Cutoffs

set_option autoImplicit false

/-!
# What a map collects

A map that completes collects each promoted path that every item wrote into the array of the items'
values, and leaves the other paths alone. Nested promoted paths break this: the array stored at the
upper path hides the lower one, and an optional lower path is then skipped without an error.
`map_collects_iff` says exactly which visits collect as intended.
-/

namespace Zeroshot

open Logged

/-! ## Writes that meet a path -/

/-- A context has recorded a write at, above or below the path. -/
def Context.Wrote (context : Context) (path : FieldPath) : Prop :=
  ∃ written ∈ context.localWrites, written.Meets path

instance (context : Context) (path : FieldPath) : Decidable (context.Wrote path) :=
  inferInstanceAs (Decidable (∃ written ∈ context.localWrites, written.Meets path))

theorem promotedWritePaths_isEmpty {context : Context} {path : FieldPath} :
    (promotedWritePaths context.localWrites [path]).isEmpty = true ↔ ¬ context.Wrote path := by
  rw [List.isEmpty_iff]
  constructor
  · rintro hempty ⟨written, hwritten, hmeets⟩
    have htarget : path ∈ [path] := List.mem_singleton_self path
    obtain ⟨_, hin, -⟩ := exists_writeCandidate hwritten htarget hmeets
    obtain ⟨_, hmember, -⟩ := exists_promotedWritePath hin
    exact List.ne_nil_of_mem hmember hempty
  · intro hnone
    rw [List.eq_nil_iff_forall_not_mem]
    intro member hmember
    obtain ⟨⟨written, hwritten, habove⟩, target, htarget, hbelow⟩ :=
      promotedWritePaths_below hmember
    cases List.mem_singleton.mp htarget
    exact hnone ⟨written, hwritten, FieldPath.meets_of_above habove hbelow⟩

/-! ## Collecting -/

section

variable {items : List Context} {path : FieldPath}

/-- Every item wrote the path. -/
def EveryWrote (items : List Context) (path : FieldPath) : Prop := ∀ item ∈ items, item.Wrote path

instance (items : List Context) (path : FieldPath) : Decidable (EveryWrote items path) :=
  inferInstanceAs (Decidable (∀ item ∈ items, item.Wrote path))

theorem collects_iff :
    (items.any fun item => (promotedWritePaths item.localWrites [path]).isEmpty) = true ↔
      ¬ EveryWrote items path := by
  rw [List.any_eq_true, EveryWrote]
  simp only [promotedWritePaths_isEmpty]
  push Not
  exact Iff.rfl

theorem collectValues_get {values : List Value} (h : collectValues path items = .ok values) :
    values.length = items.length ∧ ∀ (k : Nat) (item : Context), items[k]? = some item →
      ∃ value, values[k]? = some value ∧ select item.state path = .ok value := by
  induction items generalizing values with
  | nil =>
    cases h
    exact ⟨rfl, fun k item hitem => by simp at hitem⟩
  | cons first items ih =>
    rw [collectValues] at h
    simp only [except_bind_eq_ok] at h
    obtain ⟨value, hvalue, rest, hrest, h⟩ := h
    cases h
    obtain ⟨hlength, hget⟩ := ih hrest
    refine ⟨by rw [List.length_cons, List.length_cons, hlength], fun k item hitem => ?_⟩
    cases k with
    | zero =>
      cases hitem
      exact ⟨value, rfl, hvalue⟩
    | succ k => exact hget k item hitem

theorem collectItems_cons {paths collected : List FieldPath} {local' after : Context}
    (h : collectItems items local' (path :: paths) = .ok (after, collected)) :
    (¬ EveryWrote items path ∧ collectItems items local' paths = .ok (after, collected)) ∨
    (EveryWrote items path ∧ ∃ values state rest, collectValues path items = .ok values ∧
      setPath local'.state path (.array values) = .ok state ∧ collected = path :: rest ∧
      collectItems items { local' with
        state
        localWrites := OrdSet.insert path local'.localWrites } paths = .ok (after, rest)) := by
  rw [collectItems] at h
  by_cases hwrote : EveryWrote items path
  · rw [if_neg (fun hany => collects_iff.mp hany hwrote)] at h
    simp only [except_bind_eq_ok] at h
    obtain ⟨values, hvalues, state, hstate, ⟨after', rest⟩, hrest, h⟩ := h
    cases h
    exact .inr ⟨hwrote, values, state, rest, hvalues, hstate, rfl, hrest⟩
  · rw [if_pos (collects_iff.mpr hwrote)] at h
    exact .inl ⟨hwrote, h⟩

theorem mem_collected {paths collected : List FieldPath} {local' after : Context}
    (h : collectItems items local' paths = .ok (after, collected)) :
    path ∈ collected ↔ path ∈ paths ∧ EveryWrote items path := by
  induction paths generalizing local' collected with
  | nil =>
    cases h
    simp
  | cons first paths ih =>
    rcases collectItems_cons h with ⟨hnot, hrest⟩ | ⟨hwrote, values, state, rest, -, -, rfl, hrest⟩
    · rw [ih hrest, List.mem_cons]
      constructor
      · exact fun hp => ⟨.inr hp.1, hp.2⟩
      · rintro ⟨rfl | hin, hp⟩
        · exact absurd hp hnot
        · exact ⟨hin, hp⟩
    · rw [List.mem_cons, ih hrest, List.mem_cons]
      constructor
      · rintro (rfl | hp)
        · exact ⟨.inl rfl, hwrote⟩
        · exact ⟨.inr hp.1, hp.2⟩
      · rintro ⟨rfl | hin, hp⟩
        · exact .inl rfl
        · exact .inr ⟨hin, hp⟩

theorem collectItems_keeps {paths collected : List FieldPath} {local' after : Context}
    {values : List Value} (h : collectItems items local' paths = .ok (after, collected))
    (htop : Topmost collected path) (hvalues : collectValues path items = .ok values)
    (hstored : select local'.state path = .ok (.array values)) :
    select after.state path = .ok (.array values) := by
  induction paths generalizing local' collected with
  | nil =>
    cases h
    exact hstored
  | cons first paths ih =>
    rcases collectItems_cons h with ⟨-, hrest⟩ |
      ⟨-, values', state, rest, hvalues', hstate, rfl, hrest⟩
    · exact ih hrest htop hstored
    · have htop' : Topmost rest path := fun other hin => htop other (List.mem_cons_of_mem _ hin)
      refine ih hrest htop' ?_
      by_cases hmeets : first.Meets path
      · rcases hmeets with habove | hbelow
        · cases htop first List.mem_cons_self habove
          rw [hvalues] at hvalues'
          cases hvalues'
          exact select_setPath_self hstate
        · by_cases hsame : path = first
          · cases hsame
            rw [hvalues] at hvalues'
            cases hvalues'
            exact select_setPath_self hstate
          · exact absurd hstate (setPath_below_array hbelow hsame hstored)
      · exact (select_setPath_apart hstate hmeets).trans hstored

/-- A topmost collected path ends up as the array of the items' values. -/
theorem collectItems_topmost {paths collected : List FieldPath} {local' after : Context}
    (h : collectItems items local' paths = .ok (after, collected)) (hin : path ∈ collected)
    (htop : Topmost collected path) :
    ∃ values, collectValues path items = .ok values ∧
      select after.state path = .ok (.array values) := by
  induction paths generalizing local' collected with
  | nil =>
    cases h
    cases hin
  | cons first paths ih =>
    rcases collectItems_cons h with ⟨-, hrest⟩ |
      ⟨-, values, state, rest, hvalues, hstate, rfl, hrest⟩
    · exact ih hrest hin htop
    · have htop' : Topmost rest path := fun other hin => htop other (List.mem_cons_of_mem _ hin)
      rcases List.mem_cons.mp hin with rfl | hin
      · exact ⟨values, hvalues, collectItems_keeps hrest htop' hvalues (select_setPath_self hstate)⟩
      · exact ih hrest hin htop'

end

/-! ## Promoting what was collected -/

theorem promotePaths_cons {local' : Context} {optional : OrdSet FieldPath} {parent state : Value}
    {path : FieldPath} {paths : List FieldPath} {values : List PromotedValue}
    (h : promotePaths local' optional parent (path :: paths) = .ok (state, values)) :
    (OrdSet.contains optional path = true ∧
      (¬ local'.Wrote path ∨ select local'.state path = .error .missingSelectedValue) ∧
      promotePaths local' optional parent paths = .ok (state, values)) ∨
    ∃ value next rest, select local'.state path = .ok value ∧
      setPath parent path value = .ok next ∧
      promotePaths local' optional next paths = .ok (state, rest) := by
  rw [promotePaths, except_bind_eq_ok] at h
  obtain ⟨value, hvalue, hnext⟩ := h
  rw [promotedValue] at hvalue
  split at hvalue
  case isTrue hskip =>
    cases hvalue
    rw [Bool.and_eq_true, promotedWritePaths_isEmpty] at hskip
    exact .inl ⟨hskip.1, .inl hskip.2, hnext⟩
  case isFalse =>
    cases hselect : select local'.state path with
    | ok found =>
      rw [hselect] at hvalue
      cases hvalue
      simp only [except_bind_eq_ok] at hnext
      obtain ⟨next, hset, ⟨state', rest⟩, hrest, hr⟩ := hnext
      cases hr
      exact .inr ⟨found, next, rest, rfl, hset, hrest⟩
    | error error =>
      cases selectSegments_error hselect
      rw [hselect] at hvalue
      cases hoptional : OrdSet.contains optional path with
      | false =>
        rw [hoptional] at hvalue
        cases hvalue
      | true =>
        rw [hoptional] at hvalue
        cases hvalue
        exact .inl ⟨rfl, .inr rfl, hnext⟩

section

variable {local' : Context} {optional : OrdSet FieldPath} {parent state : Value}
  {path : FieldPath} {paths : List FieldPath} {values : List PromotedValue}

theorem promotePaths_apart
    (h : promotePaths local' optional parent paths = .ok (state, values))
    (hapart : ∀ other ∈ paths, ¬ other.Meets path) : select state path = select parent path := by
  induction paths generalizing parent values with
  | nil =>
    cases h
    rfl
  | cons first paths ih =>
    rw [List.forall_mem_cons] at hapart
    rcases promotePaths_cons h with ⟨-, -, hrest⟩ | ⟨value, next, rest, -, hset, hrest⟩
    · exact ih hrest hapart.2
    · rw [ih hrest hapart.2]
      exact select_setPath_apart hset hapart.1

/-- An array already stored at a topmost path stays: nothing is selected below it. -/
theorem promotePaths_keeps {items : List Value}
    (h : promotePaths local' optional parent paths = .ok (state, values))
    (htop : Topmost paths path) (hlocal : select local'.state path = .ok (.array items))
    (hstored : select parent path = .ok (.array items)) :
    select state path = .ok (.array items) := by
  induction paths generalizing parent values with
  | nil =>
    cases h
    exact hstored
  | cons first paths ih =>
    have htop' : Topmost paths path := fun other hin => htop other (List.mem_cons_of_mem _ hin)
    rcases promotePaths_cons h with ⟨-, -, hrest⟩ | ⟨value, next, rest, hvalue, hset, hrest⟩
    · exact ih hrest htop' hstored
    · refine ih hrest htop' ?_
      by_cases hmeets : first.Meets path
      · by_cases hsame : path = first
        · cases hsame
          rw [hlocal] at hvalue
          cases hvalue
          exact select_setPath_self hset
        · rcases hmeets with habove | hbelow
          · exact absurd (htop first List.mem_cons_self habove).symm hsame
          · rw [select_below_array hbelow hsame hlocal] at hvalue
            cases hvalue
      · exact (select_setPath_apart hset hmeets).trans hstored

theorem promotePaths_topmost {items : List Value}
    (h : promotePaths local' optional parent paths = .ok (state, values))
    (htop : Topmost paths path) (hin : path ∈ paths) (hwrote : local'.Wrote path)
    (hlocal : select local'.state path = .ok (.array items)) :
    select state path = .ok (.array items) := by
  induction paths generalizing parent values with
  | nil => cases hin
  | cons first paths ih =>
    have htop' : Topmost paths path := fun other hin => htop other (List.mem_cons_of_mem _ hin)
    rcases promotePaths_cons h with ⟨-, hskip, hrest⟩ | ⟨value, next, rest, hvalue, hset, hrest⟩
    · rcases List.mem_cons.mp hin with rfl | hin
      · rcases hskip with hnone | herror
        · exact absurd hwrote hnone
        · rw [hlocal] at herror
          cases herror
      · exact ih hrest htop' hin
    · rcases List.mem_cons.mp hin with rfl | hin
      · rw [hlocal] at hvalue
        cases hvalue
        exact promotePaths_keeps hrest htop' hlocal (select_setPath_self hset)
      · exact ih hrest htop' hin

end

/-! ## Collecting from contexts -/

theorem EveryWrote.of_below {items : List Context} {above below : FieldPath}
    (h : EveryWrote items below) (hcontains : above.contains below = true) :
    EveryWrote items above := by
  intro item hitem
  obtain ⟨written, hwritten, hmeets⟩ := h item hitem
  exact ⟨written, hwritten, (hmeets.symm.of_above hcontains).symm⟩

/-! ## Closing a map -/

namespace Engine

/-- What a map should leave at a promoted path: the items' values when every item wrote the path,
else what was there before. -/
def Collects (items : List Context) (before after : Value) (path : FieldPath) : Prop :=
  (EveryWrote items path → ∃ values, select after path = .ok (.array values) ∧
    values.length = items.length ∧ ∀ (k : Nat) (item : Context), items[k]? = some item →
      ∃ value, values[k]? = some value ∧ select item.state path = .ok value) ∧
  (¬ EveryWrote items path → select after path = select before path)

/-- No promoted path is hidden by an array collected above it: such a path was not written by every
item and held nothing before the map. -/
def Unhidden (items : List Context) (before : Value) (promoted : List FieldPath) : Prop :=
  ∀ upper ∈ promoted, ∀ lower ∈ promoted, upper.contains lower = true → upper ≠ lower →
    EveryWrote items upper →
      ¬ EveryWrote items lower ∧ select before lower = .error .missingSelectedValue

@[simp]
theorem mergeItems_state (names : List NodeName) (results : List MapItemResult)
    (context : Context) : (mergeItems names results context).state = context.state := by
  induction results generalizing context with
  | nil => rfl
  | cons result results ih =>
    rw [mergeItems, ih]
    rfl

section

variable {engine : Engine} {group : Group} {body : GraphNode} {mapIndices : List Nat}
  {results : List MapItemResult} {context c : Context}

/-- The three kinds of paths after a map: topmost collected, below such a path, and apart from all
collected paths. -/
theorem closeMap_select
    (h : engine.closeMap group body mapIndices results context = .ok c) (path : FieldPath) :
    let items := results.map MapItemResult.context
    let collected := group.promotedStatePaths.filter fun path => EveryWrote items path
    (path ∈ collected → Topmost collected path →
      ∃ values, collectValues path items = .ok values ∧ select c.state path = .ok (.array values)) ∧
    ((∀ other ∈ collected, ¬ other.Meets path) →
      select c.state path = select context.state path) := by
  intro items collected
  simp only [closeMap, Engine.promoted, except_bind_eq_ok] at h
  obtain ⟨⟨local', found⟩, hcollect, c', ⟨optional, -, ⟨state, values⟩, hpromote, hc'⟩, hc⟩ := h
  cases hc
  cases hc'
  have hfound : ∀ path, path ∈ found ↔ path ∈ collected := by
    intro path
    rw [mem_collected hcollect, List.mem_filter, decide_eq_true_iff]
  simp only [mergeItems_state]
  constructor
  · intro hin htop
    have htop' : Topmost found path := fun other hother => htop other ((hfound other).mp hother)
    have hin' : path ∈ found := (hfound path).mpr hin
    obtain ⟨values, hvalues, hlocal⟩ := collectItems_topmost hcollect hin' htop'
    refine ⟨values, hvalues, ?_⟩
    have hwritten : path ∈ local'.localWrites := (collectItems_mem hcollect).2 path hin'
    exact promotePaths_topmost hpromote htop' hin'
      ⟨path, hwritten, FieldPath.meets_refl path⟩ hlocal
  · intro hapart
    exact promotePaths_apart hpromote fun other hother => hapart other ((hfound other).mp hother)

theorem closeMap_hidden (h : engine.closeMap group body mapIndices results context = .ok c)
    {upper lower : FieldPath} (hupper : upper ∈ group.promotedStatePaths)
    (hwrote : EveryWrote (results.map MapItemResult.context) upper)
    (habove : upper.contains lower = true) (hne : upper ≠ lower) :
    select c.state lower = .error .missingSelectedValue := by
  have hcollected : upper ∈ group.promotedStatePaths.filter
      fun path => EveryWrote (results.map MapItemResult.context) path :=
    List.mem_filter.mpr ⟨hupper, decide_eq_true hwrote⟩
  obtain ⟨top, hin, hcontains, htop⟩ := exists_topmost hcollected
  obtain ⟨values, -, hselect⟩ := (closeMap_select h top).1 hin htop
  refine select_below_array (FieldPath.contains_trans hcontains habove) ?_ hselect
  rintro rfl
  exact hne (FieldPath.contains_antisymm habove hcontains)

theorem closeMap_collects_iff
    (h : engine.closeMap group body mapIndices results context = .ok c) :
    let items := results.map MapItemResult.context
    (∀ path ∈ group.promotedStatePaths, Collects items context.state c.state path) ↔
      Unhidden items context.state group.promotedStatePaths := by
  intro items
  constructor
  · intro hcollects upper hupper lower hlower habove hne hwrote
    have herror := closeMap_hidden h hupper hwrote habove hne
    have hnot : ¬ EveryWrote items lower := by
      intro hlowerWrote
      obtain ⟨values, hvalues, -⟩ := (hcollects lower hlower).1 hlowerWrote
      rw [herror] at hvalues
      cases hvalues
    exact ⟨hnot, ((hcollects lower hlower).2 hnot).symm.trans herror⟩
  · intro hunhidden path hpath
    constructor
    · intro hwrote
      have hin : path ∈ group.promotedStatePaths.filter fun path => EveryWrote items path :=
        List.mem_filter.mpr ⟨hpath, decide_eq_true hwrote⟩
      have htop : Topmost (group.promotedStatePaths.filter fun path => EveryWrote items path)
          path := by
        intro other hother habove
        by_contra hne
        obtain ⟨hpromoted, hotherWrote⟩ := List.mem_filter.mp hother
        exact (hunhidden other hpromoted path hpath habove hne (of_decide_eq_true hotherWrote)).1
          hwrote
      obtain ⟨values, hvalues, hselect⟩ := (closeMap_select h path).1 hin htop
      obtain ⟨hlength, hget⟩ := collectValues_get hvalues
      exact ⟨values, hselect, hlength, hget⟩
    · intro hnot
      by_cases hapart : ∀ other ∈ group.promotedStatePaths.filter fun path => EveryWrote items path,
          ¬ other.Meets path
      · exact (closeMap_select h path).2 hapart
      · simp only [not_forall, not_not] at hapart
        obtain ⟨other, hother, hmeets⟩ := hapart
        obtain ⟨hpromoted, hotherWrote⟩ := List.mem_filter.mp hother
        have hotherWrote := of_decide_eq_true hotherWrote
        -- a collected path below an unwritten one would make it written
        have habove : other.contains path = true :=
          hmeets.resolve_right fun hbelow => hnot (hotherWrote.of_below hbelow)
        have hne : other ≠ path := by
          rintro rfl
          exact hnot hotherWrote
        rw [closeMap_hidden h hpromoted hotherWrote habove hne]
        exact (hunhidden other hpromoted path hpath habove hne hotherWrote).2.symm

end

/-- A map visit that completes without overflow: the items fit the limit, no item ends the run, and
the visit continues. -/
structure CompletesMap (engine : Engine) (group : Group) (body : GraphNode)
    (overItems : DataSelector) (maxItems : PositiveInteger) (context : Context) (t : Traversal)
    (items : List Value) (c : Context) : Prop where
  selected : selectData overItems context.state t.item = .ok (.array items)
  fits : items.length ≤ maxItems.get
  unended : ∀ (k : Nat) (item : Value) (result : MapItemResult) (inner : List Effect),
    items[k]? = some item →
    ItemRun (engine.eval body) context { enterGroup group.name t with mode := .probe } (item, k)
      result inner → result.status.isTerminal = false
  returned : ∃ position log, (engine.eval (.map group body overItems maxItems) context t).Returns
    (.continuing position, c) log

/-- **What a map visit collects.** In a visit that completes, every promoted path becomes the array
of the items' own values if every item wrote it, and keeps its value otherwise, exactly if no
promoted path is hidden by an array collected above it. -/
theorem map_collects_iff {engine : Engine} {group : Group} {body : GraphNode}
    {overItems : DataSelector} {maxItems : PositiveInteger} {context c : Context} {t : Traversal}
    {items : List Value}
    (h : engine.CompletesMap group body overItems maxItems context t items c) :
    ∃ results : List MapItemResult, results.length = items.length ∧
      (∀ (k : Nat) (item : Value), items[k]? = some item → ∃ result inner,
        results[k]? = some result ∧
        ItemRun (engine.eval body) context (enterGroup group.name t) (item, k) result inner) ∧
      ((∀ path ∈ group.promotedStatePaths,
          Collects (results.map MapItemResult.context) context.state c.state path) ↔
        Unhidden (results.map MapItemResult.context) context.state group.promotedStatePaths) := by
  obtain ⟨position, log, hreturned⟩ := h.returned
  obtain ⟨selected, items', hselected, harray, hcase⟩ := evalMap_returns hreturned
  change selectData overItems context.state t.item = .ok selected at hselected
  rw [h.selected] at hselected
  cases hselected
  cases harray
  rcases hcase with ⟨hmany, -⟩ | ⟨-, probes, plog, hprobes, hrun⟩
  · exact absurd hmany (Nat.not_lt.mpr h.fits)
  · generalize hstatus : Status.continuing position = status at hrun
    cases hrun with
    | terminal index found item status dlog hfound hitem hrun =>
      obtain ⟨k, probe, -, hprobe, rfl, hterminal, -⟩ := earliestTerminal_eq_some hfound
      obtain ⟨item', inner, hitem', hinner, -⟩ := evaluateMapItems_get_result hprobes hprobe
      rw [h.unended k item' probe inner hitem' hinner] at hterminal
      cases hterminal
    | pending results rlog hnone hresults hpending => cases hstatus
    | finished results rlog dlog c hnone hresults hsettled hclose hlog =>
      have hruns : ∃ rlog, (evaluateMapItems (engine.eval body) context (enterGroup group.name t)
          items).Returns results rlog := by
        rcases hresults with ⟨hmode, rfl, -⟩ | ⟨-, hdecide⟩
        · rw [← hmode] at hprobes
          exact ⟨plog, hprobes⟩
        · exact ⟨rlog, hdecide⟩
      obtain ⟨rlog, hruns⟩ := hruns
      refine ⟨results, evaluateMapItems_length hruns, fun k item hitem => ?_,
        closeMap_collects_iff hclose⟩
      obtain ⟨result, inner, hresult, hrun, -⟩ := evaluateMapItems_get hruns hitem
      exact ⟨result, inner, hresult, hrun⟩

end Engine

namespace Sample

def xy : FieldPath :=
  ⟨[⟨"x", validateIdentifier_x⟩, ⟨"y", by decide⟩], by simp, by simp [maxPathSegments]⟩
def v : FieldPath := ⟨[⟨"v", by decide⟩], by simp, by simp [maxPathSegments]⟩

/-- A list of strings to map over, and the given type at `x`. -/
def listsType (type : PayloadType) : PayloadType :=
  .record [(⟨"i", validateIdentifier_i⟩, true, .array .string),
    (⟨"x", validateIdentifier_x⟩, false, type)]

def listType : PayloadType := .record [(⟨"i", validateIdentifier_i⟩, true, .array .string)]

def outputType (type : PayloadType) : PayloadType := .record [(⟨"v", by decide⟩, true, type)]

def listWorker : WorkerRef := ⟨"w@2", by decide⟩

/-- One worker returns a string, the others a list. -/
def outputRegistry : WorkerRegistry := fun given =>
  .ok ⟨given, [.full], .null, outputType (if given.asStr == worker.asStr then .string
    else .array .string), none, none⟩

/-- A step that writes its output below `x`. -/
def nestedStep : GraphNode :=
  .step ⟨a, worker, none, .null, outputType .string, [], [⟨⟨a, .out, v⟩, xy⟩], none,
    PositiveInteger.one⟩

/-- A map that promotes `x.y`, then `x`. -/
def nestedGroup : Group :=
  ⟨e, listsType (.record [(⟨"y", by decide⟩, true, .array .string)]), [xy, x]⟩

def nestedMap : GraphNode := .map nestedGroup nestedStep (.state items) two

/-- The map, in a graph that the verifier accepts. -/
def nested : GraphSpec where
  profile := .full
  initialInput := listType
  policy := policy
  root := .seq ⟨s, listsType (.array (.array .string)), []⟩
    [.map ⟨m, listsType (.array (.array .string)), [x]⟩
      (.seq ⟨p, listsType (.array (.array .string)), [x]⟩
        [.seq ⟨c, listType, []⟩ [.seq ⟨d, nestedGroup.state, []⟩ [nestedMap]],
          .step ⟨b, listWorker, none, .null, outputType (.array .string), [],
            [⟨⟨b, .out, v⟩, x⟩], none, PositiveInteger.one⟩])
      (.state items) two,
      fail f]
  wellFormed := by decide +kernel

def oneItem : Value := .object [("i", .array [.string "a"])]

/-- The step of the only item has settled. -/
def nestedHistory : List DurableExecution :=
  [attempt 0 a [0, 0] 1 (.settled (position 2) (.verified (.object [("v", .string "s")]) []))]

def nestedEvents : List RunEvent :=
  [.dispatch [(execution 0, position 1)],
    .settle (execution 0) (position 2) (.verified (.object [("v", .string "s")]) [])]

/-- The traversal of the inner map, in the first item of the outer one. -/
def nestedTraversal : Traversal :=
  { rootTraversal with
    mapIndices := [0]
    item := some (.string "a") }

theorem validateIdentifier_z : validateIdentifier "z" = true := by decide

def w : FieldPath := ⟨[⟨"w", by decide⟩], by simp, by simp [maxPathSegments]⟩
def z : FieldPath := ⟨[⟨"z", validateIdentifier_z⟩], by simp, by simp [maxPathSegments]⟩

/-- A step that writes its output below `x` and at `z`. -/
def flatStep : GraphNode :=
  .step ⟨a, worker, none, .null, outputType .string, [], [⟨⟨a, .out, v⟩, xy⟩, ⟨⟨a, .out, v⟩, z⟩],
    none, PositiveInteger.one⟩

/-- A map that promotes paths of which none is above another; `w` is not written. -/
def flatGroup : Group := ⟨e, nestedGroup.state, [x, z, w]⟩

def flatMap : GraphNode := .map flatGroup flatStep (.state items) two

def itemsAndW : Value :=
  .object [("i", .array [.string "a", .string "b"]), ("w", .string "kept")]

/-- The steps of both items have settled. -/
def flatHistory : List DurableExecution :=
  [attempt 0 a [0, 0] 1 (.settled (position 3) (.verified (.object [("v", .string "s")]) [])),
    attempt 1 a [0, 1] 2 (.settled (position 4) (.verified (.object [("v", .string "t")]) []))]

end Sample

open Sample in
/-- A map over two items collects what both wrote and leaves what none wrote. -/
theorem flatMap_collects :
    ∃ (c : Context) (results : List Engine.MapItemResult),
      (engineOf nested.root itemsAndW flatHistory).CompletesMap flatGroup flatStep (.state items)
        two (Context.new itemsAndW) nestedTraversal [.string "a", .string "b"] c ∧
      results.length = 2 ∧
      (∀ path ∈ [x, z, w], Engine.Collects (results.map Engine.MapItemResult.context) itemsAndW
        c.state path) ∧
      select c.state x =
        .ok (.array [.object [("y", .string "s")], .object [("y", .string "t")]]) ∧
      select c.state z = .ok (.array [.string "s", .string "t"]) ∧
      select c.state w = .ok (.string "kept") := by
  have hresult : ((engineOf nested.root itemsAndW flatHistory).eval flatMap (Context.new itemsAndW)
      nestedTraversal).result.map (fun result => (result.1, select result.2.state x,
        select result.2.state z, select result.2.state w)) =
      .ok (.continuing (position 4),
        .ok (.array [.object [("y", .string "s")], .object [("y", .string "t")]]),
        .ok (.array [.string "s", .string "t"]), .ok (.string "kept")) := by
    set_option maxRecDepth 8000 in decide
  cases hrun : (engineOf nested.root itemsAndW flatHistory).eval flatMap (Context.new itemsAndW)
      nestedTraversal with
  | mk log result =>
    rw [hrun] at hresult
    cases result with
    | error e => cases hresult
    | ok result =>
      obtain ⟨status, c⟩ := result
      simp only [Except.map, Except.ok.injEq, Prod.mk.injEq] at hresult
      obtain ⟨rfl, hx, hz, hw⟩ := hresult
      have hvisit : (engineOf nested.root itemsAndW flatHistory).CompletesMap flatGroup flatStep
          (.state items) two (Context.new itemsAndW) nestedTraversal [.string "a", .string "b"]
          c := by
        refine ⟨by decide, by decide, ?_, ⟨position 4, log, hrun⟩⟩
        intro k item result inner hitem hitemRun
        refine Bool.eq_false_iff.mpr fun hterminal => ?_
        have hhas := Engine.eval_hasTerminal rfl flatStep hitemRun.2 hterminal
        exact absurd hhas (by decide)
      obtain ⟨results, hlength, -, hiff⟩ := Engine.map_collects_iff hvisit
      refine ⟨c, results, hvisit, hlength, hiff.mpr ?_, hx, hz, hw⟩
      intro upper hupper lower hlower hcontains hne
      have hapart : ∀ upper ∈ flatGroup.promotedStatePaths,
          ∀ lower ∈ flatGroup.promotedStatePaths, upper.contains lower = true → upper = lower := by
        decide
      exact absurd (hapart upper hupper lower hlower hcontains) hne

open Sample in
/-- With one item, the step of which has written `x.y`, the map completes and stores the array of
the items' values at `x`; `x.y`, which every item wrote as well, holds no value at all. -/
theorem map_hides_nested :
    Verified outputRegistry nested ∧ Reachable .voidsFirst nested.root oneItem nestedHistory ∧
      Engine.new (runInput oneItem nestedHistory) nested.root .nativeV2 =
        .ok (engineOf nested.root oneItem nestedHistory) ∧
      nestedMap ∈ nested.root.descendants ∧
      ((engineOf nested.root oneItem nestedHistory).eval nestedStep (Context.new oneItem)
          (Engine.itemTraversal (Engine.enterGroup e nestedTraversal) (.string "a", 0))).result.map
        (fun result => (result.2.localWrites, select result.2.state xy)) =
          .ok ([xy], .ok (.string "s")) ∧
      ((engineOf nested.root oneItem nestedHistory).eval nestedMap (Context.new oneItem)
          nestedTraversal).result.map
        (fun result => (result.1, select result.2.state x, select result.2.state xy)) =
          .ok (.continuing (position 2), .ok (.array [.object [("y", .string "s")]]),
            .error .missingSelectedValue) ∧
      .promote e [0] [⟨x, .array [.object [("y", .string "s")]]⟩] ∈
        (reductionOf nested oneItem nestedHistory).decisions := by
  have hnode : nestedMap ∈ nested.root.descendants := by
    repeat first | exact .head _ | apply List.Mem.tail
  refine ⟨?_, ⟨nestedEvents, ?_⟩, rfl, hnode, ?_, ?_, ?_⟩ <;> decide +kernel

end Zeroshot
