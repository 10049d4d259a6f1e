import Zeroshot.Lib.Ranking
import Zeroshot.Reducer.Configuration
import Zeroshot.Reducer.Frame
import Mathlib.Order.MinMax

set_option autoImplicit false

/-!
# Causality

What an evaluation knows by a position `q` is its result, if its status is at most at `q`, and
nothing otherwise (`known`). Two evaluations of the same node from the same context, whose leaves
show the same outcomes up to `q`, know the same by `q`: later outcomes can neither overtake an
earlier completion nor change a context used before them.

Each group has one lemma that lifts the tie from its children to itself. They are stated for
evaluations that may differ in engine, mode and cutoff.
-/

namespace Zeroshot

open Logged Engine

/-! ## What is known by a position -/

/-- The status is pending or lies after `q`. -/
def Late (q : HistoryPosition) (status : Status) : Prop := status = .pending ∨ q < status.position

instance (q : HistoryPosition) (status : Status) : Decidable (Late q status) :=
  inferInstanceAs (Decidable (_ ∨ _))

/-- The part of a result known by `q`. -/
def known (q : HistoryPosition) (r : Status × Context) : Option (Status × Context) :=
  if Late q r.1 then none else some r

/-- Two results are known alike by `q`; when `exempt`, a terminal known on the left is not
compared. -/
def Tied (exempt : Prop) (q : HistoryPosition) (r r' : Status × Context) : Prop :=
  (exempt ∧ r.1.isTerminal = true ∧ ¬ Late q r.1) ∨ known q r = known q r'

section

variable {exempt : Prop} {q : HistoryPosition} {r r' : Status × Context}

theorem late_pending : Late q .pending := .inl rfl

theorem late_continuing {p : HistoryPosition} : Late q (.continuing p) ↔ q < p := by
  simp [Late, Status.position]

theorem known_of_late (h : Late q r.1) : known q r = none := if_pos h

theorem known_of_not_late (h : ¬ Late q r.1) : known q r = some r := if_neg h

theorem late_of_known_eq (h : known q r = known q r') (hlate : Late q r.1) : Late q r'.1 := by
  by_contra hnot
  rw [known_of_late hlate, known_of_not_late hnot] at h
  cases h

theorem eq_of_known_eq (h : known q r = known q r') (hnot : ¬ Late q r.1) : r' = r := by
  have hnot' : ¬ Late q r'.1 := fun hlate => hnot (late_of_known_eq h.symm hlate)
  rw [known_of_not_late hnot, known_of_not_late hnot'] at h
  exact (Option.some.inj h).symm

theorem Tied.late (h : Late q r.1) (h' : Late q r'.1) : Tied exempt q r r' :=
  .inr ((known_of_late h).trans (known_of_late h').symm)

theorem Tied.same : Tied exempt q r r := .inr rfl

theorem not_late_of_within {bound : HistoryPosition} {status : Status} (h : Within bound status)
    (hbound : bound ≤ q) (hne : status ≠ .pending) : ¬ Late q status := by
  rintro (hpending | hlate)
  · exact hne hpending
  · exact absurd (hlate.trans_le ((h hne).trans hbound)) (lt_irrefl q)

theorem late_after_of_lt {position : HistoryPosition} (h : q < position) {status : Status}
    (hstops : status.Stops) : Late q (status.after position) := by
  cases status with
  | pending => exact late_pending
  | continuing p => exact absurd rfl (hstops p)
  | terminal p r => exact .inr (h.trans_le (le_max_right _ _))

theorem late_after {position : HistoryPosition} {status : Status} (h : Late q status) :
    Late q (status.after position) := by
  cases status with
  | pending => exact h
  | continuing p => exact h
  | terminal p r =>
    rcases h with h | h
    · cases h
    · exact .inr (h.trans_le (le_max_left _ _))

theorem not_late_after {position : HistoryPosition} {status : Status} (h : ¬ Late q status)
    (hposition : position ≤ q) : ¬ Late q (status.after position) := by
  cases status with
  | pending => exact h
  | continuing p => exact h
  | terminal p r =>
    rintro (hpending | hlate)
    · cases hpending
    · rcases lt_max_iff.mp hlate with hp | hp
      · exact h (.inr hp)
      · exact absurd (hp.trans_le hposition) (lt_irrefl q)

end

/-! ## Engines with one configuration -/

/-- Two native engines that differ in their executions only. -/
structure SameConfig (engine engine' : Engine) : Prop extends Configured engine engine' where
  native : engine.executionMode = .nativeV2
  native' : engine'.executionMode = .nativeV2

theorem SameConfig.symm {engine engine' : Engine} (h : SameConfig engine engine') :
    SameConfig engine' engine :=
  ⟨⟨h.mapDepths.symm, h.optionalPromotions.symm⟩, h.native', h.native⟩

/-! ## Lifting the tie -/

/-- The traversals agree on the scope; their modes and cutoffs are as given. -/
structure Sync (m m' : EvalMode) (c c' : HistoryPosition) (t t' : Traversal) : Prop where
  mapIndices : t.mapIndices = t'.mapIndices
  item : t.item = t'.item
  mode : t.mode = m
  mode' : t'.mode = m'
  cutoff : t.cutoff = c
  cutoff' : t'.cutoff = c'

/-- Evaluations from the same context in the same scope are tied. -/
def EvalTied (exempt : Prop) (q : HistoryPosition) (m m' : EvalMode) (c c' : HistoryPosition)
    (f f' : Evaluator) : Prop :=
  ∀ context t t', Sync m m' c c' t t' → ∀ r r' log log',
    (f context t).Returns r log → (f' context t').Returns r' log' → Tied exempt q r r'

/-- The leaves of two engines show the same outcomes up to `q`. -/
def LeavesAgree (q c c' : HistoryPosition) (engine engine' : Engine) : Prop :=
  ∀ spec mapIndices number,
    (engine.leafOutcome spec mapIndices number c).filter (fun outcome => outcome.1 ≤ q) =
      (engine'.leafOutcome spec mapIndices number c').filter fun outcome => outcome.1 ≤ q

section

variable {engine engine' : Engine} (hconfig : SameConfig engine engine') {exempt : Prop}
  {q c c' : HistoryPosition} {m m' : EvalMode}
include hconfig

theorem executable_tied (hleaves : LeavesAgree q c c' engine engine') (spec : ExecutableSpec) :
    EvalTied exempt q m m' c c' (engine.evalExecutable spec) (engine'.evalExecutable spec) := by
  rintro context t t' hsync ⟨status, c₁⟩ ⟨status', c₁'⟩ log log' h h'
  obtain ⟨number, input, rest, hnumber, -, -, -, hleaf, -⟩ :=
    evalExecutable_returns hconfig.native h
  obtain ⟨number', input', rest', hnumber', -, -, -, hleaf', -⟩ :=
    evalExecutable_returns hconfig.native' h'
  rw [← hsync.mapIndices, ← hnumber] at hnumber'
  rw [← hsync.mapIndices, hsync.cutoff', hnumber', ← hconfig.leafResult] at hleaf'
  rw [hsync.cutoff] at hleaf
  have hagree := hleaves spec t.mapIndices number
  obtain ⟨hnone, rfl, -⟩ | ⟨p, o, applied, hsome, rfl, -⟩ := leafResult_returns hleaf
  · -- Nothing is visible on the left, so only a late outcome can be on the right.
    refine .late late_pending ?_
    obtain ⟨-, rfl, -⟩ | ⟨p', o', applied', hsome', rfl, -⟩ := leafResult_returns hleaf'
    · exact late_pending
    · rw [hnone, hsome', Option.filter_none, eq_comm, Option.filter_eq_none_iff] at hagree
      exact .inr (not_le.mp fun hle => hagree (p', o') rfl (decide_eq_true hle))
  · by_cases hearly : p ≤ q
    · rw [hsome, Option.filter_some, if_pos (decide_eq_true hearly), eq_comm,
        Option.filter_eq_some_iff] at hagree
      rw [hagree.1, ← hsome, hleaf] at hleaf'
      cases hleaf'
      exact .same
    · refine .late (.inr (not_le.mp hearly)) ?_
      rw [hsome, Option.filter_some, if_neg (by simpa using hearly), eq_comm,
        Option.filter_eq_none_iff] at hagree
      obtain ⟨-, rfl, -⟩ | ⟨p', o', applied', hsome', rfl, -⟩ := leafResult_returns hleaf'
      · exact late_pending
      · exact .inr (not_le.mp fun hle => hagree (p', o') hsome' (decide_eq_true hle))

end

/-- Children that run after a late position end late. -/
theorem runChildren_late {q : HistoryPosition} {children : List Evaluator}
    {position : HistoryPosition} (hlate : q < position) {context c : Context} {t : Traversal}
    {status : Status} {log : List Effect}
    (h : (runChildren children position context t).Returns (status, c) log) : Late q status := by
  induction children generalizing position context log with
  | nil =>
    obtain ⟨rfl, -, -⟩ := runChildren_nil h
    exact .inr hlate
  | cons child rest ih =>
    obtain ⟨p, c', first, second, -, hrest, -⟩ | ⟨s, -, hstops, rfl⟩ := runChildren_cons h
    · exact ih (hlate.trans_le (le_max_left _ _)) hrest
    · exact late_after_of_lt hlate hstops

theorem isTerminal_after {status : Status} (position : HistoryPosition) :
    (status.after position).isTerminal = status.isTerminal := by
  cases status <;> rfl

theorem runChildren_tied {exempt : Prop} {q c c' : HistoryPosition} {m m' : EvalMode}
    {children children' : List Evaluator}
    (hchildren : List.Forall₂ (EvalTied exempt q m m' c c') children children')
    {t t' : Traversal} (hsync : Sync m m' c c' t t') {position : HistoryPosition}
    (hposition : position ≤ q) {context : Context} {r r' : Status × Context}
    {log log' : List Effect} (h : (runChildren children position context t).Returns r log)
    (h' : (runChildren children' position context t').Returns r' log') : Tied exempt q r r' := by
  induction hchildren generalizing position context log log' with
  | nil =>
    obtain ⟨hr, -⟩ := returns_pure.mp h
    obtain ⟨hr', -⟩ := returns_pure.mp h'
    rw [hr, hr']
    exact .same
  | cons hchild hrest ih =>
    obtain ⟨status, c₁⟩ := r
    obtain ⟨status', c₁'⟩ := r'
    -- Both runs split at the first child; the tie of the first child decides which splits meet.
    obtain ⟨p, d, first, second, hrun, hafter, -⟩ | ⟨s, hrun, hstops, rfl⟩ := runChildren_cons h <;>
      obtain ⟨p', d', first', second', hrun', hafter', -⟩ | ⟨s', hrun', hstops', rfl⟩ :=
        runChildren_cons h' <;>
      obtain ⟨hexempt, hterminal, hearly⟩ | hknown := hchild _ _ _ hsync _ _ _ _ hrun hrun'
    · cases hterminal
    · by_cases hlate : Late q (.continuing p)
      · have hlate' := late_of_known_eq hknown hlate
        obtain ⟨⟨⟩⟩ | hp := hlate
        obtain ⟨⟨⟩⟩ | hp' := hlate'
        exact .late (runChildren_late (hp.trans_le (le_max_right _ _)) hafter)
          (runChildren_late (hp'.trans_le (le_max_right _ _)) hafter')
      · cases eq_of_known_eq hknown hlate
        have hp : p ≤ q := not_lt.mp fun hlt => hlate (.inr hlt)
        exact ih (max_le hposition hp) hafter hafter'
    · cases hterminal
    · by_cases hlate : Late q (.continuing p)
      · have hlate' := late_of_known_eq hknown hlate
        obtain ⟨⟨⟩⟩ | hp := hlate
        exact .late (runChildren_late (hp.trans_le (le_max_right _ _)) hafter) (late_after hlate')
      · cases eq_of_known_eq hknown hlate
        exact absurd rfl (hstops' p)
    · exact .inl ⟨hexempt, (isTerminal_after position).trans hterminal,
        not_late_after hearly hposition⟩
    · by_cases hlate : Late q s
      · have hlate' := late_of_known_eq hknown hlate
        obtain ⟨⟨⟩⟩ | hp' := hlate'
        exact .late (late_after hlate)
          (runChildren_late (hp'.trans_le (le_max_right _ _)) hafter')
      · cases eq_of_known_eq hknown hlate
        exact absurd rfl (hstops p')
    · exact .inl ⟨hexempt, (isTerminal_after position).trans hterminal,
        not_late_after hearly hposition⟩
    · by_cases hlate : Late q s
      · exact .late (late_after hlate) (late_after (late_of_known_eq hknown hlate))
      · cases eq_of_known_eq hknown hlate
        exact .same

section

variable {engine engine' : Engine} (hconfig : SameConfig engine engine') {exempt : Prop}
  {q c c' : HistoryPosition} {m m' : EvalMode}
include hconfig

theorem sequence_tied {group : Group} {children children' : List Evaluator}
    (hchildren : List.Forall₂ (EvalTied exempt q m m' c c') children children') :
    EvalTied exempt q m m' c c' (engine.evalSequence group children)
      (engine'.evalSequence group children') := by
  rintro context t t' hsync ⟨status, d⟩ ⟨status', d'⟩ log log' h h'
  obtain ⟨local₁, first, second, hrun, hclose, -, -⟩ := evalSequence_returns h
  obtain ⟨local₁', first', second', hrun', hclose', -, -⟩ := evalSequence_returns h'
  obtain ⟨hexempt, hterminal, hearly⟩ | hknown :=
    runChildren_tied hchildren hsync (HistoryPosition.zero_le q) hrun hrun'
  · exact .inl ⟨hexempt, hterminal, hearly⟩
  · by_cases hlate : Late q status
    · have hlate' : Late q status' := late_of_known_eq hknown hlate
      exact .late hlate hlate'
    · cases eq_of_known_eq hknown hlate
      rw [← hconfig.closeSequence, hclose] at hclose'
      cases hclose'
      exact .same

theorem choice_tied {group : Group} {branches : List (Guard × GraphNode)}
    {otherwise : Option GraphNode}
    (hbranches : ∀ b ∈ branches, EvalTied exempt q m m' c c' (engine.eval b.2) (engine'.eval b.2))
    (hotherwise : ∀ n ∈ otherwise, EvalTied exempt q m m' c c' (engine.eval n) (engine'.eval n)) :
    EvalTied exempt q m m' c c' (engine.eval (.choice group branches otherwise))
      (engine'.eval (.choice group branches otherwise)) := by
  rintro context t t' hsync ⟨status, d⟩ ⟨status', d'⟩ log log' h h'
  obtain ⟨node, local₁, first, second, hnode, hrun, hclose, -, -⟩ := eval_choice_returns engine h
  obtain ⟨node', local₁', first', second', hnode', hrun', hclose', -, -⟩ :=
    eval_choice_returns engine' h'
  rw [← hconfig.selectNode, ← hsync.mapIndices, hnode] at hnode'
  cases hnode'
  have htied : EvalTied exempt q m m' c c' (engine.eval node) (engine'.eval node) := by
    rcases selectNode_mem hnode with ⟨b, hb, rfl⟩ | hother
    · exact hbranches b hb
    · exact hotherwise node hother
  obtain ⟨hexempt, hterminal, hearly⟩ | hknown := htied _ _ _ hsync _ _ _ _ hrun hrun'
  · exact .inl ⟨hexempt, hterminal, hearly⟩
  · by_cases hlate : Late q status
    · have hlate' : Late q status' := late_of_known_eq hknown hlate
      exact .late hlate hlate'
    · cases eq_of_known_eq hknown hlate
      rw [← hconfig.closeChoice, hclose] at hclose'
      cases hclose'
      exact .same

end

/-! ### Loops -/

/-- What is known of a loop's end: nothing when it is late. -/
def ExitLate (q : HistoryPosition) : LoopExit → Prop
  | .stopped status => Late q status
  | .completed _ position _ => q < position

theorem runIterations_late {engine : Engine} {names : List NodeName} {body : Evaluator}
    {untilGuard : Option Guard} {t : Traversal} {q : HistoryPosition} {remaining iteration : Nat}
    {position : HistoryPosition} (hlate : q < position) {context : Context} {exit : LoopExit}
    {log : List Effect}
    (h : (engine.runIterations names body untilGuard t remaining iteration position
      context).Returns exit log) : ExitLate q exit := by
  induction remaining generalizing iteration position context log with
  | zero =>
    obtain ⟨rfl, -⟩ := returns_pure.mp h
    exact hlate
  | succ remaining ih =>
    obtain ⟨p, c, first, second, -, -, hnext⟩ | ⟨s, c, -, hstops, rfl⟩ := runIterations_succ h
    · have hmax : q < max position p := hlate.trans_le (le_max_left _ _)
      obtain ⟨-, rfl, -⟩ | ⟨-, hrest⟩ := hnext
      · exact hmax
      · exact ih hmax hrest
    · exact late_after_of_lt hlate hstops

/-- Two ends of a loop: an exempt terminal, both late, or equal. -/
def ExitTied (exempt : Prop) (q : HistoryPosition) (exit exit' : LoopExit) : Prop :=
  (exempt ∧ ∃ s, exit = .stopped s ∧ s.isTerminal = true ∧ ¬ Late q s) ∨
    (ExitLate q exit ∧ ExitLate q exit') ∨ exit = exit'

section

variable {engine engine' : Engine} (hconfig : SameConfig engine engine') {exempt : Prop}
  {q c c' : HistoryPosition} {m m' : EvalMode}

theorem Sync.iteration {t t' : Traversal} (h : Sync m m' c c' t t') (iteration iteration' : Nat) :
    Sync m m' c c' (iterationTraversal t iteration) (iterationTraversal t' iteration') :=
  ⟨h.mapIndices, h.item, h.mode, h.mode', h.cutoff, h.cutoff'⟩

include hconfig

theorem runIterations_tied {names : List NodeName} {body body' : Evaluator}
    {untilGuard : Option Guard} (hbody : EvalTied exempt q m m' c c' body body')
    {t t' : Traversal} (hsync : Sync m m' c c' t t') {remaining iteration : Nat}
    {position : HistoryPosition} (hposition : position ≤ q) {context : Context}
    {exit exit' : LoopExit} {log log' : List Effect}
    (h : (engine.runIterations names body untilGuard t remaining iteration position
      context).Returns exit log)
    (h' : (engine'.runIterations names body' untilGuard t' remaining iteration position
      context).Returns exit' log') : ExitTied exempt q exit exit' := by
  induction remaining generalizing iteration position context log log' with
  | zero =>
    obtain ⟨rfl, -⟩ := returns_pure.mp h
    obtain ⟨rfl, -⟩ := returns_pure.mp h'
    exact .inr (.inr rfl)
  | succ remaining ih =>
    have hcontext : iterationContext names t' context = iterationContext names t context := by
      rw [iterationContext, iterationContext, hsync.mapIndices]
    obtain ⟨p, d, first, second, hrun, -, hnext⟩ | ⟨s, d, hrun, hstops, rfl⟩ :=
        runIterations_succ h <;>
      obtain ⟨p', d', first', second', hrun', -, hnext'⟩ | ⟨s', d', hrun', hstops', rfl⟩ :=
        runIterations_succ h' <;>
      rw [hcontext] at hrun' <;>
      obtain ⟨hexempt, hterminal, hearly⟩ | hknown :=
        hbody _ _ _ (hsync.iteration _ _) _ _ _ _ hrun hrun'
    · cases hterminal
    · -- Both bodies continue; a late one makes both ends late.
      by_cases hlate : Late q (.continuing p)
      · have hlate' := late_of_known_eq hknown hlate
        obtain ⟨⟨⟩⟩ | hp := hlate
        obtain ⟨⟨⟩⟩ | hp' := hlate'
        have hmax : q < max position p := hp.trans_le (le_max_right _ _)
        have hmax' : q < max position p' := hp'.trans_le (le_max_right _ _)
        refine .inr (.inl ⟨?_, ?_⟩)
        · obtain ⟨-, rfl, -⟩ | ⟨-, hrest⟩ := hnext
          · exact hmax
          · exact runIterations_late hmax hrest
        · obtain ⟨-, rfl, -⟩ | ⟨-, hrest⟩ := hnext'
          · exact hmax'
          · exact runIterations_late hmax' hrest
      · cases eq_of_known_eq hknown hlate
        have hp : p ≤ q := not_lt.mp fun hlt => hlate (.inr hlt)
        rw [← hconfig.guard, ← hsync.mapIndices] at hnext'
        obtain ⟨hguard, rfl, -⟩ | ⟨hguard, hrest⟩ := hnext <;>
          obtain ⟨hguard', rfl, -⟩ | ⟨hguard', hrest'⟩ := hnext'
        · exact .inr (.inr rfl)
        · rw [hguard] at hguard'
          cases hguard'
        · rw [hguard] at hguard'
          cases hguard'
        · exact ih (max_le hposition hp) hrest hrest'
    · cases hterminal
    · by_cases hlate : Late q (.continuing p)
      · have hlate' : Late q s' := late_of_known_eq hknown hlate
        obtain ⟨⟨⟩⟩ | hp := hlate
        have hmax : q < max position p := hp.trans_le (le_max_right _ _)
        refine .inr (.inl ⟨?_, late_after hlate'⟩)
        obtain ⟨-, rfl, -⟩ | ⟨-, hrest⟩ := hnext
        · exact hmax
        · exact runIterations_late hmax hrest
      · cases eq_of_known_eq hknown hlate
        exact absurd rfl (hstops' p)
    · exact .inl ⟨hexempt, _, rfl, (isTerminal_after position).trans hterminal,
        not_late_after hearly hposition⟩
    · by_cases hlate : Late q s
      · have hlate' := late_of_known_eq hknown hlate
        obtain ⟨⟨⟩⟩ | hp' := hlate'
        have hmax' : q < max position p' := hp'.trans_le (le_max_right _ _)
        refine .inr (.inl ⟨late_after hlate, ?_⟩)
        obtain ⟨-, rfl, -⟩ | ⟨-, hrest⟩ := hnext'
        · exact hmax'
        · exact runIterations_late hmax' hrest
      · cases eq_of_known_eq hknown hlate
        exact absurd rfl (hstops p')
    · exact .inl ⟨hexempt, _, rfl, (isTerminal_after position).trans hterminal,
        not_late_after hearly hposition⟩
    · by_cases hlate : Late q s
      · have hlate' : Late q s' := late_of_known_eq hknown hlate
        exact .inr (.inl ⟨late_after hlate, late_after hlate'⟩)
      · cases eq_of_known_eq hknown hlate
        exact .inr (.inr rfl)

omit hconfig in
theorem late_of_closeLoop {group : Group} {names : List NodeName} {mapIndices : List Nat}
    {context d : Context} {exit : LoopExit} {status : Status} (hlate : ExitLate q exit)
    (h : engine.closeLoop group names mapIndices context exit = .ok (status, d)) :
    Late q status := by
  cases exit with
  | stopped s =>
    cases h
    exact hlate
  | completed local' position label =>
    simp only [closeLoop, except_bind_eq_ok] at h
    obtain ⟨_, -, hr⟩ := h
    cases hr
    exact .inr hlate

theorem loop_tied {group : Group} {node : GraphNode} {untilGuard : Option Guard}
    {maxIterations : PositiveInteger}
    (hbody : EvalTied exempt q m m' c c' (engine.eval node) (engine'.eval node)) :
    EvalTied exempt q m m' c c'
      (engine.evalLoop group (engine.child node) untilGuard maxIterations)
      (engine'.evalLoop group (engine'.child node) untilGuard maxIterations) := by
  rintro context t t' hsync ⟨status, d⟩ ⟨status', d'⟩ log log' h h'
  obtain ⟨exit, first, second, hrun, hclose, -, -⟩ := evalLoop_returns h
  obtain ⟨exit', first', second', hrun', hclose', -, -⟩ := evalLoop_returns h'
  obtain ⟨hexempt, s, rfl, hterminal, hearly⟩ | ⟨hlate, hlate'⟩ | rfl :=
    runIterations_tied hconfig hbody hsync (HistoryPosition.zero_le q) hrun hrun'
  · cases hclose
    exact .inl ⟨hexempt, hterminal, hearly⟩
  · exact .late (late_of_closeLoop hlate hclose) (late_of_closeLoop hlate' hclose')
  · rw [← hsync.mapIndices, ← hconfig.closeLoop] at hclose'
    have heq := hclose.symm.trans hclose'
    cases heq
    exact .same

end

/-! ### Parallel groups -/

instance : Std.Total completedBefore where
  total a b := by
    rcases lt_trichotomy a.2 b.2 with h | h | h
    · exact .inl (.inl h)
    · rcases Nat.le_total a.1 b.1 with hle | hle
      · exact .inl (.inr ⟨h, hle⟩)
      · exact .inr (.inr ⟨h.symm, hle⟩)
    · exact .inr (.inl h)

instance : IsTrans (Nat × HistoryPosition) completedBefore where
  trans a b c := by
    rintro (hab | ⟨hab, hab'⟩) (hbc | ⟨hbc, hbc'⟩)
    · exact .inl (hab.trans hbc)
    · exact .inl (hbc ▸ hab)
    · exact .inl (hab ▸ hbc)
    · exact .inr ⟨hab.trans hbc, hab'.trans hbc'⟩

instance : Std.Antisymm completedBefore where
  antisymm a b := by
    rintro (hab | ⟨hab, hab'⟩) (hba | ⟨hba, hba'⟩)
    · exact absurd (hab.trans hba) (lt_irrefl _)
    · exact absurd (hba ▸ hab) (lt_irrefl _)
    · exact absurd (hab ▸ hba) (lt_irrefl _)
    · exact Prod.ext (Nat.le_antisymm hab' hba') hab

theorem completedBefore_of_lt (a b : Nat × HistoryPosition) (h : a.2 < b.2) : completedBefore a b :=
  .inl h

/-- Probes known alike have the same early completions. -/
theorem earlyCompletions_eq {engine : Engine} {join : Join} {mapIndices : List Nat}
    {q : HistoryPosition} {probes probes' : List (Status × Context)} {start : Nat}
    (h : probes.map (known q) = probes'.map (known q)) :
    (engine.parallelCompletions join mapIndices start probes).filter (fun e => e.2 ≤ q) =
      (engine.parallelCompletions join mapIndices start probes').filter fun e => e.2 ≤ q := by
  -- A late probe contributes nothing early.
  have hlate : ∀ {status : Status} {d : Context} {probes : List (Status × Context)} {start : Nat},
      Late q status →
      (engine.parallelCompletions join mapIndices start ((status, d) :: probes)).filter
          (fun e => e.2 ≤ q) =
        (engine.parallelCompletions join mapIndices (start + 1) probes).filter
          fun e => e.2 ≤ q := by
    intro status d probes start hlate
    cases status with
    | pending => rfl
    | terminal p r => rfl
    | continuing p =>
      have hnot : ¬ p ≤ q := not_le.mpr (late_continuing.mp hlate)
      rw [parallelCompletions]
      split
      · rw [List.filter_cons, if_neg (by simpa using hnot)]
      · rfl
  induction probes generalizing probes' start with
  | nil =>
    cases probes' with
    | nil => rfl
    | cons => cases h
  | cons probe probes ih =>
    cases probes' with
    | nil => cases h
    | cons probe' probes' =>
      obtain ⟨hhead, htail⟩ := List.cons.inj h
      obtain ⟨status, d⟩ := probe
      obtain ⟨status', d'⟩ := probe'
      by_cases hl : Late q status
      · have hl' : Late q status' := late_of_known_eq hhead hl
        rw [hlate hl, hlate hl']
        exact ih htail
      · cases eq_of_known_eq hhead hl
        cases status with
        | pending => exact ih htail
        | terminal p r => exact ih htail
        | continuing p =>
          simp only [parallelCompletions]
          split
          · rw [List.filter_cons, List.filter_cons, ih htail]
          · exact ih htail

/-- Too few early completions and a late probe: the visit is late. -/
theorem Engine.ParallelRun.late {engine : Engine} {group : Group} {join : Join}
    {branches : List Child} {context d : Context} {t : Traversal} {probes : List (Status × Context)}
    {plog log : List Effect} {status : Status} {q bound : HistoryPosition}
    (hmax : bound < HistoryPosition.max) (hprobes : ∀ probe ∈ probes, Within bound probe.1)
    (hfew : ((engine.parallelCompletions join t.mapIndices 0 probes).filter
      fun e => e.2 ≤ q).length < parallelJoinRequired join probes.length)
    (hlate : ∃ probe ∈ probes, Late q probe.1)
    (h : ParallelRun engine group join branches context t probes plog status d log) :
    Late q status := by
  cases h with
  | opened => exact late_pending
  | unreachable dlog _ hsettled =>
    obtain ⟨probe, hprobe, hpending | hlt⟩ := hlate
    · exact absurd hpending (hsettled probe hprobe)
    refine .inr (hlt.trans_le (le_latest ?_))
    -- The late position is below the bound, so the filter keeps it.
    have hne : probe.1.position ≠ HistoryPosition.max :=
      ((hprobes probe hprobe (hsettled probe hprobe)).trans_lt hmax).ne
    exact List.mem_filter.mpr ⟨List.mem_map_of_mem hprobe, by simpa using hne⟩
  | reached position joined wlog first last hmany hposition =>
    rw [Engine.completions, List.length_insertionSort] at hmany
    obtain ⟨e, he, hlt⟩ := exists_late_of_lt completedBefore Prod.snd q _ hfew hmany
    refine .inr (hlt.trans_le ?_)
    rw [Status.position, hposition]
    exact le_latest (List.mem_map_of_mem he)

section

variable {engine engine' : Engine} (hconfig : SameConfig engine engine') {exempt : Prop}
  {q c c' : HistoryPosition} {m m' : EvalMode} {nodes : List GraphNode}

theorem Sync.probing {t t' : Traversal} (h : Sync m m' c c' t t') :
    Sync .probe .probe c c' { t with mode := .probe } { t' with mode := .probe } :=
  ⟨h.mapIndices, h.item, rfl, rfl, h.cutoff, h.cutoff'⟩

theorem Sync.group {t t' : Traversal} (h : Sync m m' c c' t t') (name : NodeName) :
    Sync m m' c c' (enterGroup name t) (enterGroup name t') :=
  ⟨h.mapIndices, h.item, h.mode, h.mode', h.cutoff, h.cutoff'⟩

theorem Sync.withCutoff {t t' : Traversal} (h : Sync m m' c c' t t') (d d' : HistoryPosition) :
    Sync m m' d d' { t with cutoff := d } { t' with cutoff := d' } :=
  ⟨h.mapIndices, h.item, h.mode, h.mode', rfl, rfl⟩

/-- The probes of tied branches are known alike. -/
theorem probes_known_eq
    (hprobe : ∀ n ∈ nodes, EvalTied False q .probe .probe c c' (engine.eval n) (engine'.eval n))
    {context : Context} {t t' : Traversal} (hsync : Sync m m' c c' t t')
    {probes probes' : List (Status × Context)} {plog plog' : List Effect}
    (h : (probeParallel (nodes.map engine.child) context t).Returns probes plog)
    (h' : (probeParallel (nodes.map engine'.child) context t').Returns probes' plog') :
    probes.map (known q) = probes'.map (known q) := by
  have hlength : probes.length = nodes.length := by rw [forEach_length h, List.length_map]
  have hlength' : probes'.length = nodes.length := by rw [forEach_length h', List.length_map]
  refine List.ext_getElem? fun k => ?_
  rw [List.getElem?_map, List.getElem?_map]
  rcases Nat.lt_or_ge k nodes.length with hk | hk
  · have hnode : nodes[k]? = some nodes[k] := List.getElem?_eq_getElem hk
    obtain ⟨r, inner, hr, hrun, -⟩ := forEach_get h
      (by rw [List.getElem?_map, hnode]; rfl : (nodes.map engine.child)[k]? = some _)
    obtain ⟨r', inner', hr', hrun', -⟩ := forEach_get h'
      (by rw [List.getElem?_map, hnode]; rfl : (nodes.map engine'.child)[k]? = some _)
    obtain ⟨hfalse, -⟩ | hknown :=
      hprobe _ (List.getElem_mem hk) _ _ _ hsync.probing _ _ _ _ hrun hrun'
    · exact hfalse.elim
    · rw [hr, hr', Option.map_some, Option.map_some, hknown]
  · rw [List.getElem?_eq_none (by omega), List.getElem?_eq_none (by omega)]

/-- Probes known alike and none of them late are equal. -/
theorem eq_of_known_map_eq {probes probes' : List (Status × Context)}
    (h : probes.map (known q) = probes'.map (known q))
    (hearly : ∀ probe ∈ probes, ¬ Late q probe.1) :
    probes' = probes := by
  induction probes generalizing probes' with
  | nil =>
    cases probes' with
    | nil => rfl
    | cons => cases h
  | cons probe probes ih =>
    cases probes' with
    | nil => cases h
    | cons probe' probes' =>
      obtain ⟨hhead, htail⟩ := List.cons.inj h
      rw [eq_of_known_eq hhead (hearly probe List.mem_cons_self),
        ih htail fun p hp => hearly p (List.mem_cons_of_mem _ hp)]

theorem exists_late_of_known_map_eq {probes probes' : List (Status × Context)}
    (h : probes.map (known q) = probes'.map (known q)) (hlate : ∃ probe ∈ probes, Late q probe.1) :
    ∃ probe ∈ probes', Late q probe.1 := by
  obtain ⟨probe, hprobe, hlate⟩ := hlate
  have hnone : none ∈ probes'.map (known q) := by
    rw [← h, ← known_of_late hlate]
    exact List.mem_map_of_mem hprobe
  obtain ⟨probe', hprobe', hknown⟩ := List.mem_map.mp hnone
  refine ⟨probe', hprobe', ?_⟩
  by_contra hnot
  rw [known_of_not_late hnot] at hknown
  cases hknown

/-- Winners evaluated again by both engines leave the same contexts. -/
theorem winnerRuns_eq
    (hmode : engine.executionMode = .nativeV2) {position : HistoryPosition}
    (hposition : position ≤ q)
    (hagain : ∀ n ∈ nodes, EvalTied exempt q m m' position position (engine.eval n)
      (engine'.eval n))
    {context : Context} {t t' : Traversal} (hsync : Sync m m' position position t t')
    {winners : List Nat} {runs runs' : List WinnerRun}
    (h : List.Forall₂ (fun index run => (nodes.map engine.child)[index]? = some run.branch ∧
      (run.branch.run context.clearWrites t).Returns (.continuing run.position, run.context)
        run.log) winners runs)
    (h' : List.Forall₂ (fun index run => (nodes.map engine'.child)[index]? = some run.branch ∧
      (run.branch.run context.clearWrites t').Returns (.continuing run.position, run.context)
        run.log) winners runs') :
    runs.map (fun run => (run.branch.node, run.context)) =
      runs'.map fun run => (run.branch.node, run.context) := by
  induction h generalizing runs' with
  | nil =>
    cases h'
    rfl
  | @cons index run winners runs hrun hruns ih =>
    cases h' with
    | @cons _ run' _ runs' hrun' hruns' =>
      obtain ⟨hbranch, hrun⟩ := hrun
      obtain ⟨hbranch', hrun'⟩ := hrun'
      rw [List.getElem?_map, Option.map_eq_some_iff] at hbranch hbranch'
      obtain ⟨node, hnode, hbranch⟩ := hbranch
      obtain ⟨node', hnode', hbranch'⟩ := hbranch'
      rw [hnode] at hnode'
      cases hnode'
      rw [← hbranch] at hrun
      rw [← hbranch'] at hrun'
      have hwithin : Within position (.continuing run.position) :=
        eval_within hmode node (hsync.cutoff ▸ leafBound_cutoff t.cutoff) hrun
      have hearly : ¬ Late q (.continuing run.position) :=
        not_late_of_within hwithin hposition (by simp)
      obtain ⟨-, hterminal, -⟩ | hknown :=
        hagain node (List.mem_of_getElem? hnode) _ _ _ hsync _ _ _ _ hrun hrun'
      · cases hterminal
      · have heq := eq_of_known_eq hknown hearly
        rw [List.map_cons, List.map_cons, ih hruns', ← hbranch, ← hbranch',
          (Prod.mk.inj heq).2]
        rfl

include hconfig

/-- Enough completions by `q`: both joins are reached, with the same winners. -/
theorem winners_eq {join : Join} {mapIndices : List Nat} {probes probes' : List (Status × Context)}
    (hknown : probes.map (known q) = probes'.map (known q))
    (hmany : parallelJoinRequired join probes.length ≤
      ((engine.parallelCompletions join mapIndices 0 probes).filter fun e => e.2 ≤ q).length) :
    engine.winnersOf join mapIndices probes = engine'.winnersOf join mapIndices probes' ∧
      latest ((engine.winnersOf join mapIndices probes).map Prod.snd) ≤ q ∧
      parallelJoinRequired join probes.length ≤
        (engine.completions join mapIndices probes).length ∧
      parallelJoinRequired join probes'.length ≤
        (engine'.completions join mapIndices probes').length := by
  have hlength : probes'.length = probes.length := by
    have := congrArg List.length hknown
    rwa [List.length_map, List.length_map, eq_comm] at this
  have hearly := @earlyCompletions_eq engine join mapIndices q probes probes' 0 hknown
  rw [hconfig.parallelCompletions] at hearly
  have hfirst := take_insertionSort_of_le completedBefore Prod.snd completedBefore_of_lt q _ hmany
  refine ⟨?_, ?_, ?_, ?_⟩
  · rw [winnersOf, winnersOf, Engine.completions, Engine.completions, hfirst,
      hconfig.parallelCompletions, hearly, hlength]
    refine (take_insertionSort_of_le completedBefore Prod.snd completedBefore_of_lt q _ ?_).symm
    rwa [← hearly, ← hconfig.parallelCompletions]
  · refine latest_le fun p hp => ?_
    obtain ⟨e, he, rfl⟩ := List.mem_map.mp hp
    rw [winnersOf, Engine.completions, hfirst] at he
    have := (List.mem_insertionSort _).mp (List.mem_of_mem_take he)
    simpa using (List.mem_filter.mp this).2
  · rw [Engine.completions, List.length_insertionSort]
    exact hmany.trans (List.length_filter_le _ _)
  · rw [Engine.completions, List.length_insertionSort, hlength]
    rw [hconfig.parallelCompletions, hearly] at hmany
    exact hmany.trans (List.length_filter_le _ _)

theorem parallel_tied {group : Group} {join : Join} {bound : HistoryPosition}
    (hmax : bound < HistoryPosition.max) (hbound : ∀ d, LeafBound engine d bound)
    (hbound' : ∀ d, LeafBound engine' d bound)
    (hprobe : ∀ n ∈ nodes, EvalTied False q .probe .probe c c' (engine.eval n) (engine'.eval n))
    (hagain : ∀ n ∈ nodes, ∀ position ≤ q, EvalTied exempt q m m' position position
      (engine.eval n) (engine'.eval n)) :
    EvalTied exempt q m m' c c' (engine.eval (.par group nodes join))
      (engine'.eval (.par group nodes join)) := by
  rintro context t t' hsync ⟨status, d⟩ ⟨status', d'⟩ log log' h h'
  rw [eval_par] at h h'
  obtain ⟨probes, plog, hprobes, hrun⟩ := evalParallel_returns h
  obtain ⟨probes', plog', hprobes', hrun'⟩ := evalParallel_returns h'
  have hknown := probes_known_eq hprobe (hsync.group group.name) hprobes hprobes'
  have hwithin : ∀ probe ∈ probes, Within bound probe.1 := by
    intro probe hmem
    obtain ⟨k, hk⟩ := List.getElem?_of_mem hmem
    obtain ⟨branch, inner, hbranch, hinner, -⟩ := forEach_get_result hprobes hk
    obtain ⟨node, hnode, rfl⟩ := List.mem_map.mp (List.mem_of_getElem? hbranch)
    exact eval_within hconfig.native node (hbound _) hinner
  have hwithin' : ∀ probe ∈ probes', Within bound probe.1 := by
    intro probe hmem
    obtain ⟨k, hk⟩ := List.getElem?_of_mem hmem
    obtain ⟨branch, inner, hbranch, hinner, -⟩ := forEach_get_result hprobes' hk
    obtain ⟨node, hnode, rfl⟩ := List.mem_map.mp (List.mem_of_getElem? hbranch)
    exact eval_within hconfig.native' node (hbound' _) hinner
  have hindices : (enterGroup group.name t').mapIndices = (enterGroup group.name t).mapIndices :=
    hsync.mapIndices.symm
  have hlength : probes'.length = probes.length := by
    have := congrArg List.length hknown
    rwa [List.length_map, List.length_map, eq_comm] at this
  have hearly : (engine.parallelCompletions join (enterGroup group.name t).mapIndices 0
      probes).filter (fun e => e.2 ≤ q) =
      (engine'.parallelCompletions join (enterGroup group.name t').mapIndices 0
        probes').filter (fun e => e.2 ≤ q) := by
    rw [hindices, ← hconfig.parallelCompletions]
    exact earlyCompletions_eq hknown
  by_cases hmany : parallelJoinRequired join probes.length ≤
      ((engine.parallelCompletions join (enterGroup group.name t).mapIndices 0
        probes).filter fun e => e.2 ≤ q).length
  · obtain ⟨hwinners, hposition, hreached, hreached'⟩ := winners_eq hconfig hknown hmany
    rw [← hindices] at hreached'
    have hwinners' : engine.winnersOf join (enterGroup group.name t).mapIndices probes =
        engine'.winnersOf join (enterGroup group.name t').mapIndices probes' := by
      rw [hwinners, hindices]
    rw [← not_lt] at hreached hreached'
    cases hrun with
    | opened _ hfew => exact absurd hfew hreached
    | unreachable _ hfew => exact absurd hfew hreached
    | reached position joined wlog first last _ hpos hjoin =>
      cases hrun' with
      | opened _ hfew => exact absurd hfew hreached'
      | unreachable _ hfew => exact absurd hfew hreached'
      | reached position' joined' wlog' first' last' _ hpos' hjoin' =>
        rw [← hwinners'] at hpos' hjoin'
        obtain rfl : position' = position := hpos'.trans hpos.symm
        obtain ⟨runs, hruns, hcontexts, -⟩ := joinParallelWinners_returns hjoin
        obtain ⟨runs', hruns', hcontexts', -⟩ := joinParallelWinners_returns hjoin'
        have hle : position' ≤ q := hpos ▸ hposition
        have hsame := winnerRuns_eq hconfig.native hle (fun n hn => hagain n hn position' hle)
          ((hsync.group group.name).withCutoff position' position') hruns hruns'
        change joinContexts group (enterGroup group.name t).mapIndices _ _ = _ at hcontexts
        change joinContexts group (enterGroup group.name t').mapIndices _ _ = _ at hcontexts'
        rw [← hsame, hindices, hcontexts] at hcontexts'
        cases hcontexts'
        rw [hindices, ← hconfig.joinedContext]
        exact .same
  · rw [not_le] at hmany
    have hmany' : ((engine'.parallelCompletions join (enterGroup group.name t').mapIndices 0
        probes').filter fun e => e.2 ≤ q).length < parallelJoinRequired join probes'.length := by
      rwa [← hearly, hlength]
    by_cases hlate : ∃ probe ∈ probes, Late q probe.1
    · exact .late (hrun.late hmax hwithin hmany hlate)
        (hrun'.late hmax hwithin' hmany' (exists_late_of_known_map_eq hknown hlate))
    · -- Everything is known: the probes are equal, and the join is unreachable in both.
      have hall : ∀ probe ∈ probes, ¬ Late q probe.1 := fun probe hprobe hl =>
        hlate ⟨probe, hprobe, hl⟩
      obtain rfl : probes' = probes := eq_of_known_map_eq hknown hall
      have hopen : ¬ ∃ probe ∈ probes', probe.1 = .pending := by
        rintro ⟨probe, hprobe, hpending⟩
        exact hall probe hprobe (.inl hpending)
      have hfew : (engine.completions join (enterGroup group.name t).mapIndices probes').length <
          parallelJoinRequired join probes'.length := by
        rw [Engine.completions, List.length_insertionSort]
        rwa [List.filter_eq_self.mpr] at hmany
        rintro ⟨i, p⟩ hmem
        obtain ⟨k, e, -, hk, -⟩ := mem_parallelCompletions.mp hmem
        have hnot : ¬ Late q (.continuing p) := hall _ (List.mem_of_getElem? hk)
        exact decide_eq_true (not_lt.mp fun hlt => hnot (late_continuing.mpr hlt))
      have hfew' : (engine'.completions join (enterGroup group.name t').mapIndices
          probes').length < parallelJoinRequired join probes'.length := by
        rwa [hindices, ← hconfig.completions]
      cases hrun with
      | opened _ _ hpending => exact absurd hpending hopen
      | reached _ _ _ _ _ henough => exact absurd hfew (not_lt.mpr henough)
      | unreachable =>
        cases hrun' with
        | opened _ _ hpending => exact absurd hpending hopen
        | reached _ _ _ _ _ henough => exact absurd hfew' (not_lt.mpr henough)
        | unreachable =>
          rw [hindices, ← hconfig.recordParallelControl]
          exact .same

end

/-! ### Maps -/

/-- The result of an item as an evaluation result. -/
def Engine.MapItemResult.pair (r : MapItemResult) : Status × Context := (r.status, r.context)

section

variable {engine engine' : Engine} {exempt : Prop} {q c c' : HistoryPosition} {m m' : EvalMode}

theorem Sync.item' {t t' : Traversal} (h : Sync m m' c c' t t') (item : Value × Nat) :
    Sync m m' c c' (itemTraversal t item) (itemTraversal t' item) := by
  refine ⟨?_, rfl, h.mode, h.mode', h.cutoff, h.cutoff'⟩
  rw [itemTraversal, itemTraversal, h.mapIndices]

theorem Sync.refl (t : Traversal) : Sync t.mode t.mode t.cutoff t.cutoff t t :=
  ⟨rfl, rfl, rfl, rfl, rfl, rfl⟩

/-- The results of tied items, index by index. -/
theorem items_tied {f f' : Evaluator} (h : EvalTied exempt q m m' c c' f f') {context : Context}
    {t t' : Traversal} (hsync : Sync m m' c c' t t') {items : List Value}
    {results results' : List MapItemResult} {log log' : List Effect}
    (hresults : (evaluateMapItems f context t items).Returns results log)
    (hresults' : (evaluateMapItems f' context t' items).Returns results' log') {k : Nat}
    {r r' : MapItemResult} (hr : results[k]? = some r) (hr' : results'[k]? = some r') :
    Tied exempt q r.pair r'.pair ∧ r.scope = r'.scope := by
  obtain ⟨item, inner, hitem, ⟨hscope, hrun⟩, -⟩ := evaluateMapItems_get_result hresults hr
  obtain ⟨item', inner', hitem', ⟨hscope', hrun'⟩, -⟩ := evaluateMapItems_get_result hresults' hr'
  rw [hitem] at hitem'
  cases hitem'
  refine ⟨h _ _ _ (hsync.item' (item, k)) _ _ _ _ hrun hrun', ?_⟩
  rw [hscope, hscope', hsync.mapIndices]

/-- A probe that is not a known terminal says what a `decide` pass up to `d` knows. -/
def ProbesDecide (q c d : HistoryPosition) (f : Evaluator) : Prop :=
  EvalTied True q .probe .decide c d f f

/-- No known terminal and a late probe: the visit is late. -/
theorem Engine.MapRun.late {node : GraphNode} {group : Group} {context d : Context} {t : Traversal}
    {items : List Value} {probes : List MapItemResult} {plog log : List Effect} {status : Status}
    (hnative : engine.executionMode = .nativeV2)
    (hown : ∀ d, d = t.cutoff ∨ q < d ∧ d ≤ t.cutoff →
      ProbesDecide q t.cutoff d (engine.eval node))
    (hprobes : (evaluateMapItems (engine.eval node) context { t with mode := .probe }
      items).Returns probes plog)
    (hterminals : ∀ r ∈ probes, r.status.isTerminal = true → Late q r.status)
    (hlate : ∃ r ∈ probes, Late q r.status)
    (h : MapRun engine group (engine.child node) context t items probes plog status d log) :
    Late q status := by
  cases h with
  | terminal index found item _ dlog hfound hitem hrun =>
    obtain ⟨r, hr, rfl, hterminal⟩ := found_mem hfound
    have hfoundLate : Late q r.status := hterminals r (List.mem_of_getElem? hr) hterminal
    rcases hrun with ⟨-, rfl, -⟩ | ⟨hmode, c', hagain⟩
    · exact hfoundLate
    · -- The second pass starts from a context with written paths, which it does not read.
      obtain ⟨⟨status', c''⟩, hagain', hsame⟩ := (eval_clearWrites node _ _).returns hagain
      obtain ⟨item', inner, hitem', ⟨-, hprobe⟩, -⟩ := evaluateMapItems_get_result hprobes hr
      rw [hitem] at hitem'
      cases hitem'
      have hlt : q < r.status.position := by
        rcases hfoundLate with hpending | hlt
        · rw [hpending] at hterminal
          cases hterminal
        · exact hlt
      have hle : r.status.position ≤ t.cutoff := by
        refine eval_within hnative node ?_ hprobe ?_
        · exact leafBound_cutoff t.cutoff
        intro hpending
        rw [hpending] at hterminal
        cases hterminal
      have hsync : Sync .probe .decide t.cutoff r.status.position
          (itemTraversal { t with mode := .probe } (item, index))
          (terminalTraversal t (item, index) r.status.position) :=
        ⟨rfl, rfl, rfl, hmode, rfl, rfl⟩
      obtain ⟨-, -, hearly⟩ | hknown :=
        hown _ (.inr ⟨hlt, hle⟩) _ _ _ hsync _ _ _ _ hprobe hagain'
      · exact absurd hfoundLate hearly
      · have := late_of_known_eq hknown hfoundLate
        rwa [← hsame.1] at this
  | pending => exact late_pending
  | finished results rlog dlog _ hnone hresults hsettled =>
    obtain ⟨r, hr, hlate⟩ := hlate
    obtain ⟨k, hk⟩ := List.getElem?_of_mem hr
    have hresult : ∃ r' ∈ results, Late q r'.status := by
      rcases hresults with ⟨-, rfl, -⟩ | ⟨hmode, hresults⟩
      · exact ⟨r, hr, hlate⟩
      · have hlength : k < results.length := by
          rw [evaluateMapItems_length hresults, ← evaluateMapItems_length hprobes]
          exact (List.getElem?_eq_some_iff.mp hk).1
        have hk' : results[k]? = some results[k] := List.getElem?_eq_getElem hlength
        have hsync : Sync .probe .decide t.cutoff t.cutoff { t with mode := .probe } t :=
          ⟨rfl, rfl, rfl, hmode, rfl, rfl⟩
        refine ⟨_, List.mem_of_getElem? hk', ?_⟩
        obtain ⟨⟨-, -, hearly⟩ | hknown, -⟩ :=
          items_tied (hown _ (.inl rfl)) hsync hprobes hresults hk hk'
        · exact absurd hlate hearly
        · have : Late q results[k].pair.1 := late_of_known_eq hknown hlate
          exact this
    obtain ⟨r', hr', hlate'⟩ := hresult
    rcases hlate' with hpending | hlt
    · exact absurd hpending (hsettled r' hr')
    · exact late_continuing.mpr (hlt.trans_le (le_latest (List.mem_map_of_mem hr')))

/-- Every probe is known and continues: so does the visit, from the probes' results. -/
theorem Engine.MapRun.early {node : GraphNode} {group : Group} {context d : Context}
    {t : Traversal} {items : List Value} {probes : List MapItemResult} {plog log : List Effect}
    {status : Status}
    (hown : ProbesDecide q t.cutoff t.cutoff (engine.eval node))
    (hprobes : (evaluateMapItems (engine.eval node) context { t with mode := .probe }
      items).Returns probes plog)
    (hterminals : ∀ r ∈ probes, r.status.isTerminal = false)
    (hearly : ∀ r ∈ probes, ¬ Late q r.status)
    (h : MapRun engine group (engine.child node) context t items probes plog status d log) :
    status = .continuing (latest (probes.map fun r => r.status.position)) ∧
      engine.closeMap group node t.mapIndices probes context = .ok d := by
  have hsame : ∀ {results rlog}, t.mode = .probe ∧ results = probes ∧ rlog = [] ∨
      t.mode = .decide ∧ (evaluateMapItems (engine.child node).run context t items).Returns results
        rlog → results = probes := by
    rintro results rlog (⟨-, rfl, -⟩ | ⟨hmode, hresults⟩)
    · rfl
    have hsync : Sync .probe .decide t.cutoff t.cutoff { t with mode := .probe } t :=
      ⟨rfl, rfl, rfl, hmode, rfl, rfl⟩
    have hlength : results.length = probes.length := by
      rw [evaluateMapItems_length hresults, evaluateMapItems_length hprobes]
    refine List.ext_getElem hlength fun k hk hk' => ?_
    obtain ⟨htied, hscope⟩ := items_tied hown hsync hprobes hresults
      (List.getElem?_eq_getElem hk') (List.getElem?_eq_getElem hk)
    have hmem : probes[k] ∈ probes := List.getElem_mem hk'
    obtain ⟨-, hterminal, -⟩ | hknown := htied
    · rw [MapItemResult.pair, hterminals _ hmem] at hterminal
      cases hterminal
    · have heq := eq_of_known_eq hknown (hearly _ hmem)
      obtain ⟨hstatus, hcontext⟩ := Prod.mk.inj heq
      cases hl : results[k]
      cases hr : probes[k]
      rw [hl, hr] at hstatus hcontext hscope
      simp_all
  cases h with
  | terminal index found item _ dlog hfound =>
    obtain ⟨k, r, -, hr, rfl, hterminal, -⟩ := earliestTerminal_eq_some hfound
    rw [hterminals r (List.mem_of_getElem? hr)] at hterminal
    cases hterminal
  | pending results rlog _ hresults hpending =>
    obtain ⟨r, hr, hpending⟩ := hpending
    rw [hsame hresults] at hr
    exact absurd (.inl hpending) (hearly r hr)
  | finished results rlog dlog _ _ hresults hsettled hclose =>
    cases hsame hresults
    exact ⟨rfl, hclose⟩

/-- Items known alike have the same earliest terminal, once it is known. -/
theorem earliestTerminal_known {probes probes' : List MapItemResult}
    (hlength : probes.length = probes'.length)
    (hknown : ∀ (k : Nat) (r r' : MapItemResult), probes[k]? = some r → probes'[k]? = some r' →
      known q r.pair = known q r'.pair) {index : Nat} {found : Status}
    (hfound : earliestTerminal 0 probes = some (index, found)) (hearly : ¬ Late q found) :
    earliestTerminal 0 probes' = some (index, found) := by
  obtain ⟨i, r, hi, hr, rfl, hterminal, hmin⟩ := earliestTerminal_eq_some hfound
  rw [Nat.zero_add] at hi
  subst hi
  have hlt : index < probes'.length := hlength ▸ (List.getElem?_eq_some_iff.mp hr).1
  have hr' : probes'[index]? = some probes'[index] := List.getElem?_eq_getElem hlt
  have hsame : probes'[index].status = r.status :=
    congrArg Prod.fst (eq_of_known_eq (hknown _ _ _ hr hr') hearly)
  cases hright : earliestTerminal 0 probes' with
  | none =>
    have := earliestTerminal_eq_none.mp hright _ (List.getElem_mem hlt)
    rw [hsame, hterminal] at this
    cases this
  | some other =>
    obtain ⟨j, s'⟩ := other
    obtain ⟨j', w, hj, hw, rfl, hwterminal, hwmin⟩ := earliestTerminal_eq_some hright
    rw [Nat.zero_add] at hj
    subst hj
    -- The right one is at most as late as the left one, so it is known and on the left too.
    have hle := hwmin index _ hr' (hsame ▸ hterminal)
    rw [hsame] at hle
    have hpos : r.status.position ≤ q := not_lt.mp fun hlt => hearly (.inr hlt)
    have hwearly : ¬ Late q w.status := by
      rintro (hpending | hlate)
      · rw [hpending] at hwterminal
        cases hwterminal
      · rcases hle with hlt | ⟨heq, -⟩
        · exact absurd ((hlate.trans hlt).trans_le hpos) (lt_irrefl q)
        · exact absurd ((heq ▸ hlate).trans_le hpos) (lt_irrefl q)
    have hjlt : j < probes.length := hlength ▸ (List.getElem?_eq_some_iff.mp hw).1
    have hl : probes[j]? = some probes[j] := List.getElem?_eq_getElem hjlt
    have hwsame : probes[j].status = w.status :=
      congrArg Prod.fst (eq_of_known_eq (hknown _ _ _ hl hw).symm hwearly)
    have hle' := hmin j _ hl (hwsame ▸ hwterminal)
    rw [hwsame] at hle'
    have hindex : j = index := by
      rcases hle with hlt | ⟨heq, hle⟩
      · rcases hle' with hlt' | ⟨heq', -⟩
        · exact absurd (hlt.trans hlt') (lt_irrefl _)
        · exact absurd (heq' ▸ hlt) (lt_irrefl _)
      · rcases hle' with hlt' | ⟨-, hle'⟩
        · exact absurd (heq ▸ hlt') (lt_irrefl _)
        · exact Nat.le_antisymm hle hle'
    subst hindex
    rw [hr'] at hw
    cases hw
    rw [hsame]

end

section

variable {engine engine' : Engine} (hconfig : SameConfig engine engine') {exempt : Prop}
  {q c c' : HistoryPosition} {node : GraphNode}
include hconfig

/-- The visit is tied once the ways a known terminal item is decided are. -/
theorem map_tied {m m' : EvalMode} {group : Group} {overItems : DataSelector}
    {maxItems : PositiveInteger}
    (hprobe : EvalTied False q .probe .probe c c' (engine.eval node) (engine'.eval node))
    (hown : ∀ d, d = c ∨ q < d ∧ d ≤ c → ProbesDecide q c d (engine.eval node))
    (hown' : ∀ d, d = c' ∨ q < d ∧ d ≤ c' → ProbesDecide q c' d (engine'.eval node))
    (hterminal : ∀ (context : Context) (t t' : Traversal) (item : Value × Nat) (found : Status)
      (status status' : Status) (r : Context) (inner : List Effect),
      Sync m m' c c' t t' → found.isTerminal = true → ¬ Late q found →
      (engine'.eval node context.clearWrites
        (itemTraversal { t' with mode := .probe } item)).Returns (found, r) inner →
      (t.mode = .probe ∧ status = found ∨ t.mode = .decide ∧ ∃ d log,
        (engine.eval node context (terminalTraversal t item found.position)).Returns (status, d)
          log) →
      (t'.mode = .probe ∧ status' = found ∨ t'.mode = .decide ∧ ∃ d log,
        (engine'.eval node context (terminalTraversal t' item found.position)).Returns
          (status', d) log) →
      Tied exempt q (status, context) (status', context)) :
    EvalTied exempt q m m' c c' (engine.eval (.map group node overItems maxItems))
      (engine'.eval (.map group node overItems maxItems)) := by
  rintro context t₀ t₀' hsync₀ ⟨status, d⟩ ⟨status', d'⟩ log log' h h'
  rw [eval_map] at h h'
  have hsync := hsync₀.group group.name
  generalize enterGroup group.name t₀ = t at h hsync
  generalize enterGroup group.name t₀' = t' at h' hsync
  obtain ⟨selected, items, hselected, hitems, hrun⟩ := evalMap_returns h
  obtain ⟨selected', items', hselected', hitems', hrun'⟩ := evalMap_returns h'
  rw [← hsync.item, hselected] at hselected'
  cases hselected'
  rw [hitems] at hitems'
  cases hitems'
  obtain ⟨hmany, rfl, rfl, -⟩ | ⟨hfit, probes, plog, hprobes, hrun⟩ := hrun <;>
    obtain ⟨hmany', rfl, rfl, -⟩ | ⟨hfit', probes', plog', hprobes', hrun'⟩ := hrun'
  · rw [hconfig.setGroupControl, hsync.mapIndices]
    exact .same
  · exact absurd hmany (by omega)
  · exact absurd hmany' (by omega)
  have hlength : probes.length = probes'.length := by
    rw [evaluateMapItems_length hprobes, evaluateMapItems_length hprobes']
  have hknown : ∀ (k : Nat) (r r' : MapItemResult), probes[k]? = some r → probes'[k]? = some r' →
      known q r.pair = known q r'.pair ∧ r.scope = r'.scope := by
    intro k r r' hr hr'
    obtain ⟨⟨hfalse, -⟩ | hknown, hscope⟩ :=
      items_tied hprobe hsync.probing hprobes hprobes' hr hr'
    · exact hfalse.elim
    · exact ⟨hknown, hscope⟩
  -- What holds of a probe on the left holds of the probe on the right at the same index.
  have hright : ∀ {r'}, r' ∈ probes' →
      ∃ (k : Nat) (r : MapItemResult), probes[k]? = some r ∧ probes'[k]? = some r' := by
    intro r' hr'
    obtain ⟨k, hk⟩ := List.getElem?_of_mem hr'
    have hlt : k < probes.length := hlength ▸ (List.getElem?_eq_some_iff.mp hk).1
    exact ⟨k, _, List.getElem?_eq_getElem hlt, hk⟩
  by_cases hfound : ∃ index found, earliestTerminal 0 probes = some (index, found) ∧
      ¬ Late q found
  · obtain ⟨index, found, hfound, hearly⟩ := hfound
    have hfound' := earliestTerminal_known hlength (fun k r r' hr hr' => (hknown k r r' hr hr').1)
      hfound hearly
    obtain ⟨r', hr', rfl, hfoundTerminal⟩ := found_mem hfound'
    obtain ⟨item, inner, hitem, ⟨-, hprobeRun⟩, -⟩ := evaluateMapItems_get_result hprobes' hr'
    cases hrun with
    | pending _ _ hnone =>
      rw [hfound] at hnone
      cases hnone
    | finished _ _ _ _ hnone =>
      rw [hfound] at hnone
      cases hnone
    | terminal _ _ item₁ _ dlog hfound₁ hitem₁ hdecide =>
      rw [hfound] at hfound₁
      cases hfound₁
      rw [hitem] at hitem₁
      cases hitem₁
      cases hrun' with
      | pending _ _ hnone =>
        rw [hfound'] at hnone
        cases hnone
      | finished _ _ _ _ hnone =>
        rw [hfound'] at hnone
        cases hnone
      | terminal _ _ item₂ _ dlog' hfound₂ hitem₂ hdecide' =>
        rw [hfound'] at hfound₂
        cases hfound₂
        rw [hitem] at hitem₂
        cases hitem₂
        refine hterminal context t t' (item, index) r'.status status status' _ inner hsync
          hfoundTerminal hearly hprobeRun ?_ ?_
        · exact hdecide.imp (fun h => ⟨h.1, h.2.1⟩) fun ⟨hmode, d, hrun⟩ => ⟨hmode, d, _, hrun⟩
        · exact hdecide'.imp (fun h => ⟨h.1, h.2.1⟩) fun ⟨hmode, d, hrun⟩ => ⟨hmode, d, _, hrun⟩
  · have hterminals : ∀ r ∈ probes, r.status.isTerminal = true → Late q r.status := by
      intro r hr hterminal
      by_contra hearly
      cases hearliest : earliestTerminal 0 probes with
      | none =>
        rw [earliestTerminal_eq_none.mp hearliest r hr] at hterminal
        cases hterminal
      | some pair =>
        obtain ⟨index, found⟩ := pair
        refine hfound ⟨index, found, hearliest, fun hlate => ?_⟩
        obtain ⟨k, w, -, -, rfl, hwterminal, hmin⟩ := earliestTerminal_eq_some hearliest
        obtain ⟨k', hk'⟩ := List.getElem?_of_mem hr
        have hpos : w.status.position ≤ r.status.position := by
          rcases hmin k' r hk' hterminal with hlt | ⟨heq, -⟩
          · exact hlt.le
          · exact heq.le
        rcases hlate with hpending | hlt
        · rw [hpending] at hwterminal
          cases hwterminal
        · exact hearly (.inr (hlt.trans_le hpos))
    have hterminals' : ∀ r ∈ probes', r.status.isTerminal = true → Late q r.status := by
      intro r' hr' hterminal
      by_contra hearly
      obtain ⟨k, r, hk, hk'⟩ := hright hr'
      have heq : r.pair = r'.pair := eq_of_known_eq (hknown k r r' hk hk').1.symm hearly
      have hstatus : r.status = r'.status := congrArg Prod.fst heq
      exact hearly (hstatus ▸ hterminals r (List.mem_of_getElem? hk) (hstatus ▸ hterminal))
    rw [← hsync.cutoff] at hown
    rw [← hsync.cutoff'] at hown'
    by_cases hlate : ∃ r ∈ probes, Late q r.status
    · have hlate' : ∃ r ∈ probes', Late q r.status := by
        obtain ⟨r, hr, hlate⟩ := hlate
        obtain ⟨k, hk⟩ := List.getElem?_of_mem hr
        have hlt : k < probes'.length := hlength ▸ (List.getElem?_eq_some_iff.mp hk).1
        have hk' : probes'[k]? = some probes'[k] := List.getElem?_eq_getElem hlt
        have : Late q probes'[k].pair.1 := late_of_known_eq (hknown k _ _ hk hk').1 hlate
        exact ⟨_, List.getElem_mem hlt, this⟩
      exact .late (hrun.late hconfig.native hown hprobes hterminals hlate)
        (hrun'.late hconfig.native' hown' hprobes' hterminals' hlate')
    · -- Everything is known and continues.
      have hall : ∀ r ∈ probes, ¬ Late q r.status := fun r hr hl => hlate ⟨r, hr, hl⟩
      have hnone : ∀ r ∈ probes, r.status.isTerminal = false := fun r hr =>
        Bool.eq_false_iff.mpr fun ht => hall r hr (hterminals r hr ht)
      have hsame : probes' = probes := by
        refine List.ext_getElem hlength.symm fun k hk hk' => ?_
        obtain ⟨hpair, hscope⟩ := hknown k _ _ (List.getElem?_eq_getElem hk')
          (List.getElem?_eq_getElem hk)
        have heq := eq_of_known_eq hpair (hall _ (List.getElem_mem hk'))
        obtain ⟨hstatus, hcontext⟩ := Prod.mk.inj heq
        cases hl : probes'[k]
        cases hr : probes[k]
        rw [hl, hr] at hstatus hcontext hscope
        simp_all
      subst hsame
      obtain ⟨rfl, hclose⟩ := hrun.early (hown _ (.inl rfl)) hprobes hnone hall
      obtain ⟨rfl, hclose'⟩ := hrun'.early (hown' _ (.inl rfl)) hprobes' hnone hall
      rw [← hsync.mapIndices, ← hconfig.closeMap, hclose] at hclose'
      cases hclose'
      exact .same

end

/-! ## Trees -/

/-- Cutoffs under which what is known by `q` can be compared. -/
def Comparable (q c c' : HistoryPosition) : Prop := c = c' ∨ q ≤ c ∧ q ≤ c'

/-- Engines whose leaves agree up to every level. When terminals known on the left are not exempt,
the levels must go down with every position below them, since a map decides a terminal item up to
the position of that item. -/
structure EngineFamily (exempt : Prop) (levels : HistoryPosition → Prop)
    (engines : Engine → Prop) : Prop where
  config : ∀ {engine engine'}, engines engine → engines engine' → SameConfig engine engine'
  leaves : ∀ {engine engine'}, engines engine → engines engine' → ∀ {q c c'}, levels q →
    Comparable q c c' → LeavesAgree q c c' engine engine'
  bounded : ∃ bound < HistoryPosition.max, ∀ {engine}, engines engine →
    ∀ d, LeafBound engine d bound
  down : exempt ∨ ∀ {q p}, levels q → p ≤ q → levels p

/-- The modes that are compared: equal ones without exemption, or `probe` on the left. -/
inductive Modes (exempt : Prop) : EvalMode → EvalMode → Prop → Prop
  | same (m : EvalMode) : Modes exempt m m False
  | mixed : Modes exempt .probe .decide exempt

theorem Tied.mono {exempt exempt' : Prop} (himp : exempt → exempt') {q : HistoryPosition}
    {r r' : Status × Context} (h : Tied exempt q r r') : Tied exempt' q r r' :=
  h.imp (fun h => ⟨himp h.1, h.2⟩) id

/-- Same statuses up to `q` make a tie with any one context. -/
theorem Tied.of_known {exempt : Prop} {q : HistoryPosition} {r r' : Status × Context}
    (h : known q r = known q r') (context : Context) :
    Tied exempt q (r.1, context) (r'.1, context) := by
  by_cases hlate : Late q r.1
  · have hlate' : Late q r'.1 := late_of_known_eq h hlate
    exact .late hlate hlate'
  · rw [eq_of_known_eq h hlate]
    exact .same

/-- **Causality.** What is known by a level does not depend on later outcomes, on the mode or on
the cutoff. -/
theorem eval_tied {exempt : Prop} {levels : HistoryPosition → Prop} {engines : Engine → Prop}
    (hfamily : EngineFamily exempt levels engines) (node : GraphNode) :
    ∀ {engine engine' : Engine}, engines engine → engines engine' →
      ∀ {q c c' : HistoryPosition}, levels q → Comparable q c c' →
        ∀ {m m' : EvalMode} {ex : Prop}, Modes exempt m m' ex →
          EvalTied ex q m m' c c' (engine.eval node) (engine'.eval node) := by
  obtain ⟨bound, hmax, hbound⟩ := hfamily.bounded
  induction node using GraphNode.induct with
  | step node =>
    intro engine engine' hmem hmem' q c c' hq hc m m' ex hmodes
    exact executable_tied (hfamily.config hmem hmem') (hfamily.leaves hmem hmem' hq hc) _
  | verifier node =>
    intro engine engine' hmem hmem' q c c' hq hc m m' ex hmodes
    exact executable_tied (hfamily.config hmem hmem') (hfamily.leaves hmem hmem' hq hc) _
  | seq group children ih =>
    intro engine engine' hmem hmem' q c c' hq hc m m' ex hmodes
    rw [eval_seq, eval_seq]
    refine sequence_tied (hfamily.config hmem hmem') ?_
    rw [List.forall₂_map_left_iff, List.forall₂_map_right_iff, List.forall₂_same]
    exact fun node hnode => ih node hnode hmem hmem' hq hc hmodes
  | choice group branches otherwise ihbranches ihotherwise =>
    intro engine engine' hmem hmem' q c c' hq hc m m' ex hmodes
    exact choice_tied (hfamily.config hmem hmem')
      (fun b hb => ihbranches b hb hmem hmem' hq hc hmodes)
      (fun n hn => ihotherwise n hn hmem hmem' hq hc hmodes)
  | par group branches join ih =>
    intro engine engine' hmem hmem' q c c' hq hc m m' ex hmodes
    exact parallel_tied (hfamily.config hmem hmem') hmax (hbound hmem) (hbound hmem')
      (fun n hn => ih n hn hmem hmem' hq hc (.same .probe))
      (fun n hn position _ => ih n hn hmem hmem' hq (.inl rfl) hmodes)
  | loop group body untilGuard maxIterations maxIterationsInput ih =>
    intro engine engine' hmem hmem' q c c' hq hc m m' ex hmodes
    rw [eval_loop, eval_loop]
    exact loop_tied (hfamily.config hmem hmem') (ih hmem hmem' hq hc hmodes)
  | map group body overItems maxItems ih =>
    intro engine engine' hmem hmem' q c c' hq hc m m' ex hmodes
    have hown : ∀ {engine}, engines engine → ∀ c d, d = c ∨ q < d ∧ d ≤ c →
        ProbesDecide q c d (engine.eval body) := by
      intro engine hmem c d hd context t t' hsync r r' log log' hrun hrun'
      have hcd : Comparable q c d :=
        hd.elim (fun h => .inl h.symm) fun h => .inr ⟨h.1.le.trans h.2, h.1.le⟩
      exact (ih hmem hmem hq hcd .mixed _ _ _ hsync _ _ _ _ hrun hrun').mono fun _ => trivial
    refine map_tied (hfamily.config hmem hmem') (ih hmem hmem' hq hc (.same .probe))
      (hown hmem c) (hown hmem' c') ?_
    intro context t t' item found status status' r inner hsync hterminal hearly hprobe hrun hrun'
    cases hmodes with
    | same =>
      cases m with
      | probe =>
        obtain ⟨-, rfl⟩ | ⟨hmode, -⟩ := hrun
        · obtain ⟨-, rfl⟩ | ⟨hmode', -⟩ := hrun'
          · exact .same
          · cases hsync.mode'.symm.trans hmode'
        · cases hsync.mode.symm.trans hmode
      | decide =>
        obtain ⟨hmode, -⟩ | ⟨-, d, dlog, hdecide⟩ := hrun
        · cases hsync.mode.symm.trans hmode
        obtain ⟨hmode', -⟩ | ⟨-, d', dlog', hdecide'⟩ := hrun'
        · cases hsync.mode'.symm.trans hmode'
        have hscope : Sync .decide .decide found.position found.position
            (terminalTraversal t item found.position)
            (terminalTraversal t' item found.position) := by
          refine ⟨?_, rfl, hsync.mode, hsync.mode', rfl, rfl⟩
          rw [terminalTraversal, terminalTraversal, hsync.mapIndices]
        obtain ⟨hfalse, -⟩ | hknown :=
          ih hmem hmem' hq (.inl rfl) (.same .decide) _ _ _ hscope _ _ _ _ hdecide hdecide'
        · exact hfalse.elim
        · exact .of_known hknown context
    | mixed =>
      obtain ⟨-, rfl⟩ | ⟨hmode, -⟩ := hrun
      · obtain ⟨hmode', -⟩ | ⟨-, d', dlog', hdecide'⟩ := hrun'
        · cases hsync.mode'.symm.trans hmode'
        rcases hfamily.down with hexempt | hdown
        · exact .inl ⟨hexempt, hterminal, hearly⟩
        · -- At the level of its own position the terminal is decided as it was probed.
          have hne : status ≠ .pending := Status.ne_pending hterminal
          have hle : status.position ≤ t'.cutoff := by
            refine eval_within (hfamily.config hmem' hmem').native body ?_ hprobe hne
            exact leafBound_cutoff t'.cutoff
          have hlevel : levels status.position :=
            hdown hq (not_lt.mp fun hlt => hearly (.inr hlt))
          have hscope : Sync .probe .decide t'.cutoff status.position
              (itemTraversal { t' with mode := .probe } item)
              (terminalTraversal t' item status.position) :=
            ⟨rfl, rfl, rfl, hsync.mode', rfl, rfl⟩
          obtain ⟨⟨status'', c''⟩, hdecide'', hsame⟩ :=
            (eval_clearWrites body _ _).returns hdecide'
          obtain ⟨hexempt, -⟩ | hknown :=
            ih hmem' hmem' hlevel (.inr ⟨hle, le_rfl⟩) .mixed _ _ _ hscope _ _ _ _ hprobe hdecide''
          · exact .inl ⟨hexempt, hterminal, hearly⟩
          · have hnot : ¬ Late status.position status := by
              rintro (hpending | hlt)
              · exact hne hpending
              · exact lt_irrefl _ hlt
            have heq := congrArg Prod.fst (eq_of_known_eq hknown hnot)
            have hstatus : status' = status := hsame.1.trans heq
            rw [hstatus]
            exact .same
      · cases hsync.mode.symm.trans hmode
  | succeed node =>
    rintro engine engine' hmem hmem' q c c' hq hc m m' ex hmodes context t t' hsync ⟨status, d⟩
      ⟨status', d'⟩ log log' h h'
    obtain ⟨output, houtput, rfl, rfl, -⟩ := evalSucceed_returns h
    obtain ⟨output', houtput', rfl, rfl, -⟩ := evalSucceed_returns h'
    rw [← hsync.item, houtput] at houtput'
    cases houtput'
    exact .same
  | fail node =>
    rintro engine engine' hmem hmem' q c c' hq hc m m' ex hmodes context t t' hsync ⟨status, d⟩
      ⟨status', d'⟩ log log' h h'
    obtain ⟨rfl, rfl, -⟩ := evalFail_returns h
    obtain ⟨rfl, rfl, -⟩ := evalFail_returns h'
    exact .same

section

variable {levels : HistoryPosition → Prop} {engines : Engine → Prop}
  (hfamily : EngineFamily False levels engines)
include hfamily

/-- Without exemption the modes do not matter. -/
theorem eval_tied_any (node : GraphNode) {engine engine' : Engine} (hmem : engines engine)
    (hmem' : engines engine') {q c c' : HistoryPosition} (hq : levels q) (hc : Comparable q c c')
    (m m' : EvalMode) : EvalTied False q m m' c c' (engine.eval node) (engine'.eval node) := by
  cases m <;> cases m'
  · exact eval_tied hfamily node hmem hmem' hq hc (.same .decide)
  · intro context t t' hsync r r' log log' hrun hrun'
    have hc' : Comparable q c' c := hc.imp Eq.symm And.symm
    have hsync' : Sync .probe .decide c' c t' t := ⟨hsync.mapIndices.symm, hsync.item.symm,
      hsync.mode', hsync.mode, hsync.cutoff', hsync.cutoff⟩
    obtain ⟨hfalse, -⟩ | hknown :=
      eval_tied hfamily node hmem' hmem hq hc' .mixed _ _ _ hsync' _ _ _ _ hrun' hrun
    · exact hfalse.elim
    · exact .inr hknown.symm
  · exact eval_tied hfamily node hmem hmem' hq hc .mixed
  · exact eval_tied hfamily node hmem hmem' hq hc (.same .probe)

/-- Evaluations whose outcomes all lie up to the level are followed exactly. -/
theorem eval_followed {node : GraphNode} {engine engine' : Engine} (hmem : engines engine)
    (hmem' : engines engine') {q c c' : HistoryPosition} (hq : levels q) (hc : Comparable q c c')
    (hbound : LeafBound engine c q) {m m' : EvalMode} {context d d' : Context} {t t' : Traversal}
    (hsync : Sync m m' c c' t t') {status status' : Status} {log log' : List Effect}
    (h : (engine.eval node context t).Returns (status, d) log)
    (h' : (engine'.eval node context t').Returns (status', d') log') (hne : status ≠ .pending) :
    status' = status ∧ d' = d := by
  have hwithin : Within q status :=
    eval_within (hfamily.config hmem hmem).native node (hsync.cutoff ▸ hbound) h
  obtain ⟨hfalse, -⟩ | hknown :=
    eval_tied_any hfamily node hmem hmem' hq hc m m' _ _ _ hsync _ _ _ _ h h'
  · exact hfalse.elim
  · exact Prod.mk.inj (eq_of_known_eq hknown (not_late_of_within hwithin le_rfl hne))

end

end Zeroshot
