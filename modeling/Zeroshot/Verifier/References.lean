import Zeroshot.Lib.SortedMap
import Zeroshot.Lib.Topological
import Zeroshot.Run.Terminal
import Zeroshot.Verifier.Totals

set_option autoImplicit false

/-!
# The reference order

`reference_topological_order` takes, while nodes remain, the ready node with the least authored
ordinal, and reports a cycle when none is ready. Indexing gives every name one ordinal, so the order
is the one `Topological.Selects` describes: it is complete exactly when the dependencies have no
cycle, and does not depend on the names.

* `Analyzer.Ordered`: what indexing keeps, names in order and ordinals apart.
* `reference_order`: what the order of every graph is, when its dependencies name indexed nodes.
-/

namespace Zeroshot

open Reporting Topological

/-! ## The analysis before the order -/

/-- The passes of `analyze` before `reference_topological_order`. -/
def analyzeBeforeOrder (graph : GraphSpec) : Analysis Unit := do
  validateProfile graph
  indexNode graph.root.name graph.root (rootPath ++ [.node graph.root.name]) 1
  validateGlobalLimits
  let _ ← validateNode graph [] graph.root graph.rootContext
  validateTerminalCoverage graph.root

/-- The analysis of the graph when its references are ordered. -/
def GraphSpec.indexedAnalyzer (graph : GraphSpec) : Analyzer := (analyzeBeforeOrder graph {}).state

/-- The order is computed from the state these passes leave. -/
example (graph : GraphSpec) :
    (analyzeGraph graph {}).value.1 = (referenceTopologicalOrder graph.indexedAnalyzer).value := rfl

/-! ## What indexing keeps -/

/-- The indexed names are in order, and their ordinals are apart. -/
structure Analyzer.Ordered (s : Analyzer) : Prop where
  sorted : s.nodes.Sorted
  before : ∀ name info, OrdMap.get? s.nodes name = some info → info.ordinal < s.authored.length
  apart : ∀ name other info info', OrdMap.get? s.nodes name = some info →
    OrdMap.get? s.nodes other = some info' → info.ordinal = info'.ordinal → name = other

theorem Analyzer.Ordered.of_same {s t : Analyzer} (hnodes : t.nodes = s.nodes)
    (hauthored : t.authored = s.authored) (h : s.Ordered) : t.Ordered := by
  refine ⟨?_, ?_, ?_⟩
  · rw [hnodes]
    exact h.sorted
  · rw [hnodes, hauthored]
    exact h.before
  · rw [hnodes]
    exact h.apart

theorem ordered_of_keeps {α : Type} {x : Analysis α} (h : Keeps x) :
    Maintains Analyzer.Ordered x :=
  Maintains.of_preserves h fun _ _ hsame =>
    Analyzer.Ordered.of_same (congrArg (fun part => part.1) hsame)
      (congrArg (fun part => part.2.1) hsame)

theorem countGuard_keeps (root : NodeName) (guard : Guard) (path : DiagnosticPath) :
    Keeps (countGuard root guard path) := by
  refine Preserves.bind (Preserves.update fun s => ?_) fun _ => emitIf_keeps _ _ _ _ _
  exact foldl_addDependencies_indexed ControlSelector.name (fun _ => []) _ _

theorem indexExecutable_keeps (name : NodeName) (attempts : PositiveInteger)
    (path : DiagnosticPath) (bindings : List WriteBinding) :
    Keeps (indexExecutable name attempts path bindings) := by
  refine Preserves.bind (emitIf_keeps _ _ _ _ _) fun _ => Preserves.update fun s => ?_
  exact foldl_addDependencies_indexed (fun _ => name) (fun node => [node]) _ _

theorem indexIdentity_ordered (node : GraphNode) (path : DiagnosticPath) :
    Maintains Analyzer.Ordered (indexIdentity node path) := by
  intro s h
  have hread : (Reporting.read s : Reported Analyzer GraphDiagnostic Analyzer).value = s := rfl
  rw [indexIdentity, bind_state, bind_state, hread]
  cases hprevious : OrdMap.get? s.nodes node.name with
  | some previous =>
    refine ⟨h.sorted, fun name info hinfo => ?_, h.apart⟩
    have hbefore := h.before name info hinfo
    change info.ordinal < (s.authored ++ [node.name]).length
    rw [List.length_append, List.length_singleton]
    omega
  | none =>
    have hlength : (s.authored ++ [node.name]).length = s.authored.length + 1 := by
      rw [List.length_append, List.length_singleton]
    have hinfo : ∀ name info, OrdMap.get? (OrdMap.insert node.name
        ⟨node, path, (s.authored ++ [node.name]).length - 1⟩ s.nodes) name = some info →
          (name = node.name ∧ info.ordinal = s.authored.length) ∨
            (name ≠ node.name ∧ OrdMap.get? s.nodes name = some info) := by
      intro name info hget
      by_cases hname : name = node.name
      · rw [hname, OrdMap.get?_insert_self] at hget
        cases hget
        exact .inl ⟨hname, by rw [hlength, Nat.add_sub_cancel]⟩
      · rw [OrdMap.get?_insert_ne hname] at hget
        exact .inr ⟨hname, hget⟩
    refine ⟨OrdMap.sorted_insert h.sorted _ _, fun name info hget => ?_,
      fun name other info info' hget hget' hordinal => ?_⟩
    · change info.ordinal < (s.authored ++ [node.name]).length
      rw [hlength]
      rcases hinfo name info hget with ⟨-, hordinal⟩ | ⟨-, hold⟩
      · omega
      · exact Nat.lt_succ_of_lt (h.before name info hold)
    · rcases hinfo name info hget with ⟨hname, hnew⟩ | ⟨-, hold⟩
      · rcases hinfo other info' hget' with ⟨hother, -⟩ | ⟨-, hold'⟩
        · rw [hname, hother]
        · have hbefore := h.before other info' hold'
          omega
      · rcases hinfo other info' hget' with ⟨-, hnew'⟩ | ⟨-, hold'⟩
        · have hbefore := h.before name info hold
          omega
        · exact h.apart name other info info' hold hold' hordinal

theorem indexNode_ordered (root : NodeName) (node : GraphNode) :
    ∀ path depth, Maintains Analyzer.Ordered (indexNode root node path depth) := by
  have hstart : ∀ (node : GraphNode) path depth (rest : Unit → Analysis Unit),
      Maintains Analyzer.Ordered (rest ()) → Maintains Analyzer.Ordered (do
        indexIdentity node path
        validateNodeDepth node.name path depth
        rest ()) := fun node path depth rest hrest =>
    (indexIdentity_ordered node path).bind fun _ =>
      (ordered_of_keeps (emitIf_keeps _ _ _ _ _)).bind fun _ => hrest
  have hnodes : ∀ (field : String) (nodes : List GraphNode),
      (∀ n ∈ nodes, ∀ path depth, Maintains Analyzer.Ordered (indexNode root n path depth)) →
      ∀ path depth index, Maintains Analyzer.Ordered
        (indexNodes root field nodes path depth index) := by
    intro field nodes
    induction nodes with
    | nil => exact fun _ _ _ _ => Maintains.pure ()
    | cons n nodes ih =>
      intro hall path depth index
      rw [List.forall_mem_cons] at hall
      rw [indexNodes]
      exact (hall.1 _ _).bind fun _ => ih hall.2 path depth (index + 1)
  have hbranches : ∀ branches : List (Guard × GraphNode),
      (∀ b ∈ branches, ∀ path depth, Maintains Analyzer.Ordered (indexNode root b.2 path depth)) →
      ∀ path depth index, Maintains Analyzer.Ordered
        (indexBranches root branches path depth index) := by
    intro branches
    induction branches with
    | nil => exact fun _ _ _ _ => Maintains.pure ()
    | cons b branches ih =>
      intro hall path depth index
      rw [List.forall_mem_cons] at hall
      rw [indexBranches]
      exact (ordered_of_keeps (countGuard_keeps _ _ _)).bind fun _ => (hall.1 _ _).bind fun _ =>
        ih hall.2 path depth (index + 1)
  induction node using GraphNode.induct with
  | step node | verifier node =>
    intro path depth
    rw [indexNode]
    exact hstart _ _ _ (fun _ => _) (ordered_of_keeps (indexExecutable_keeps _ _ _ _))
  | seq group children ih =>
    intro path depth
    rw [indexNode]
    exact hstart _ _ _ (fun _ => _) (hnodes _ _ ih _ _ _)
  | choice group branches otherwise ih ihotherwise =>
    intro path depth
    rw [indexNode]
    have hotherwise : Maintains Analyzer.Ordered (indexOtherwise root otherwise path depth) := by
      cases otherwise with
      | none => exact Maintains.pure ()
      | some node =>
        rw [indexOtherwise]
        exact ihotherwise node rfl _ _
    exact hstart _ _ _ (fun _ => _) ((hbranches _ ih _ _ _).bind fun _ => hotherwise)
  | par group branches join ih =>
    intro path depth
    rw [indexNode]
    refine hstart _ _ _ (fun _ => _) ?_
    cases join with
    | first guard =>
      exact (ordered_of_keeps (countGuard_keeps _ _ _)).bind fun _ => hnodes _ _ ih _ _ _
    | all | any | quorum => exact hnodes _ _ ih _ _ _
  | loop group body untilGuard maxIterations maxIterationsInput ih =>
    intro path depth
    rw [indexNode]
    have hupdate : Maintains Analyzer.Ordered (update fun analyzer : Analyzer =>
        { analyzer with loops := analyzer.loops ++ [group.name] } : Analysis Unit) :=
      fun s h => Analyzer.Ordered.of_same (s := s) rfl rfl h
    refine hstart _ _ _ (fun _ => _) (hupdate.bind fun _ => ?_)
    cases untilGuard with
    | none => exact ih _ _
    | some guard => exact (ordered_of_keeps (countGuard_keeps _ _ _)).bind fun _ => ih _ _
  | map group body overItems maxItems ih =>
    intro path depth
    rw [indexNode]
    exact hstart _ _ _ (fun _ => _) (ih _ _)
  | succeed node | fail node =>
    intro path depth
    rw [indexNode]
    exact hstart _ _ _ (fun _ => _) (Maintains.pure ())

/-- The index of every graph is ordered. -/
theorem GraphSpec.indexedAnalyzer_ordered (graph : GraphSpec) : graph.indexedAnalyzer.Ordered := by
  have hempty : ({} : Analyzer).Ordered :=
    ⟨OrdMap.sorted_nil, fun _ _ h => (by cases h), fun _ _ _ _ h => (by cases h)⟩
  have hglobal : Keeps validateGlobalLimits := Preserves.read.bind fun _ =>
    (emitIf_keeps _ _ _ _ _).bind fun _ => emitIf_keeps _ _ _ _ _
  have hall : Maintains Analyzer.Ordered (analyzeBeforeOrder graph) :=
    (ordered_of_keeps (emitIf_keeps _ _ _ _ _)).bind fun _ =>
      (indexNode_ordered _ _ _ _).bind fun _ => (ordered_of_keeps hglobal).bind fun _ =>
        (ordered_of_keeps (validateNode_keeps graph graph.root [] graph.rootContext)).bind fun _ =>
          ordered_of_keeps (validateTerminalCoverage_keeps graph.root)
  exact hall _ hempty

/-! ## The dependencies and the ordinals -/

namespace Analyzer

/-- The node's recorded dependencies name the other. -/
def DependsOn (s : Analyzer) (node dependency : NodeName) : Prop :=
  ∃ dependencies, OrdMap.get? s.dependencies node = some dependencies ∧ dependency ∈ dependencies

/-- Every recorded dependency names an indexed node. -/
def DependenciesKnown (s : Analyzer) : Prop :=
  ∀ entry ∈ s.dependencies, ∀ dependency ∈ entry.2, OrdMap.contains s.nodes dependency = true

instance (s : Analyzer) : Decidable s.DependenciesKnown :=
  inferInstanceAs (Decidable (∀ entry ∈ s.dependencies, ∀ dependency ∈ entry.2, _))

/-- The authored ordinal of a node. -/
def ordinal (s : Analyzer) (name : NodeName) : Nat :=
  ((OrdMap.get? s.nodes name).map NodeInfo.ordinal).getD u64Limit

theorem mem_keys_iff {s : Analyzer} {name : NodeName} :
    name ∈ OrdMap.keys s.nodes ↔ ∃ info, OrdMap.get? s.nodes name = some info := by
  constructor
  · intro h
    by_contra hnone
    have hmissing : OrdMap.get? s.nodes name = none := by
      cases hget : OrdMap.get? s.nodes name with
      | none => rfl
      | some info => exact absurd ⟨info, hget⟩ hnone
    obtain ⟨entry, hentry, hkey⟩ := List.mem_map.mp h
    exact OrdMap.get?_eq_none.mp hmissing entry hentry hkey
  · rintro ⟨info, hget⟩
    exact List.mem_map.mpr ⟨(name, info), OrdMap.mem_of_get? hget, rfl⟩

theorem DependenciesKnown.mem_keys {s : Analyzer} (h : s.DependenciesKnown)
    {node dependency : NodeName} (hdepends : s.DependsOn node dependency) :
    dependency ∈ OrdMap.keys s.nodes := by
  obtain ⟨dependencies, hget, hin⟩ := hdepends
  have hknown := h (node, dependencies) (OrdMap.mem_of_get? hget) dependency hin
  exact mem_keys_iff.mpr (Option.isSome_iff_exists.mp hknown)

/-- Different indexed nodes have different ordinals. -/
theorem Ordered.ordinal_injective {s : Analyzer} (h : s.Ordered) {first second : NodeName}
    (hfirst : first ∈ OrdMap.keys s.nodes) (hsecond : second ∈ OrdMap.keys s.nodes)
    (hsame : s.ordinal first = s.ordinal second) : first = second := by
  obtain ⟨info, hinfo⟩ := mem_keys_iff.mp hfirst
  obtain ⟨info', hinfo'⟩ := mem_keys_iff.mp hsecond
  rw [ordinal, ordinal, hinfo, hinfo'] at hsame
  exact h.apart first second info info' hinfo hinfo' hsame

theorem Ordered.nodup_keys {s : Analyzer} (h : s.Ordered) : (OrdMap.keys s.nodes).Nodup := by
  refine List.Pairwise.map Prod.fst ?_ h.sorted
  intro first second hlt hsame
  rw [hsame, Std.ReflOrd.compare_self] at hlt
  cases hlt

/-! ## One round -/

theorem leastOrdinal_none {s : Analyzer} {nodes : List NodeName} (h : leastOrdinal s nodes = none) :
    nodes = [] := by
  cases nodes with
  | nil => rfl
  | cons node nodes =>
    rw [leastOrdinal] at h
    cases hrest : leastOrdinal s nodes with
    | none =>
      rw [hrest] at h
      cases h
    | some best =>
      rw [hrest] at h
      dsimp only at h
      split at h
      · cases h
      · cases h

theorem leastOrdinal_some {s : Analyzer} {nodes : List NodeName} {best : NodeName}
    (h : leastOrdinal s nodes = some best) :
    best ∈ nodes ∧ ∀ other ∈ nodes, s.ordinal best ≤ s.ordinal other := by
  induction nodes generalizing best with
  | nil => cases h
  | cons node nodes ih =>
    rw [leastOrdinal] at h
    cases hrest : leastOrdinal s nodes with
    | none =>
      rw [hrest] at h
      cases h
      rw [leastOrdinal_none hrest]
      refine ⟨List.mem_cons_self, fun other hother => ?_⟩
      rw [List.mem_singleton.mp hother]
    | some found =>
      rw [hrest] at h
      obtain ⟨hfound, hleast⟩ := ih hrest
      change (if s.ordinal node ≤ s.ordinal found then some node else some found) = some best at h
      by_cases hle : s.ordinal node ≤ s.ordinal found
      · rw [if_pos hle] at h
        cases h
        refine ⟨List.mem_cons_self, fun other hother => ?_⟩
        rcases List.mem_cons.mp hother with rfl | hother
        · exact Nat.le_refl _
        · exact Nat.le_trans hle (hleast other hother)
      · rw [if_neg hle] at h
        cases h
        refine ⟨List.mem_cons_of_mem _ hfound, fun other hother => ?_⟩
        rcases List.mem_cons.mp hother with rfl | hother
        · omega
        · exact hleast other hother

theorem ready_iff {s : Analyzer} {order : List NodeName} {node : NodeName} :
    ((OrdMap.get? s.dependencies node).all fun dependencies =>
      dependencies.all fun dependency => dependency == node || order.contains dependency) = true ↔
        Ready s.DependsOn order node := by
  unfold Ready DependsOn
  cases hget : OrdMap.get? s.dependencies node with
  | none =>
    refine iff_of_true rfl fun dependency hdepends => ?_
    obtain ⟨_, hnone, -⟩ := hdepends
    cases hnone
  | some dependencies =>
    simp only [Option.all_some, List.all_eq_true, Bool.or_eq_true, beq_iff_eq,
      List.contains_iff_mem, Option.some.injEq]
    constructor
    · rintro hall dependency ⟨_, rfl, hin⟩ hother
      exact (hall dependency hin).resolve_left hother
    · intro hall dependency hin
      by_cases hother : dependency = node
      · exact .inl hother
      · exact .inr (hall dependency ⟨dependencies, rfl, hin⟩ hother)

theorem nextReferenceNode_none {s : Analyzer} {remaining order : List NodeName}
    (h : nextReferenceNode s remaining order = none) {node : NodeName} (hnode : node ∈ remaining) :
    ¬Ready s.DependsOn order node := by
  intro hready
  have hmem : node ∈ remaining.filter fun node =>
      (OrdMap.get? s.dependencies node).all fun dependencies =>
        dependencies.all fun dependency => dependency == node || order.contains dependency :=
    List.mem_filter.mpr ⟨hnode, ready_iff.mpr hready⟩
  rw [leastOrdinal_none h] at hmem
  cases hmem

theorem nextReferenceNode_some {s : Analyzer} {remaining order : List NodeName} {next : NodeName}
    (h : nextReferenceNode s remaining order = some next) :
    next ∈ remaining ∧ Ready s.DependsOn order next ∧
      ∀ other ∈ remaining, Ready s.DependsOn order other → s.ordinal next ≤ s.ordinal other := by
  obtain ⟨hmem, hleast⟩ := leastOrdinal_some h
  obtain ⟨hin, hready⟩ := List.mem_filter.mp hmem
  exact ⟨hin, ready_iff.mp hready, fun other hother hother' =>
    hleast other (List.mem_filter.mpr ⟨hother, ready_iff.mpr hother'⟩)⟩

end Analyzer

/-! ## The loop -/

/-- The diagnostic of `emit_reference_cycle`. -/
def cycleDiagnostic (s : Analyzer) (remaining : List NodeName) : GraphDiagnostic :=
  diagnostic .cyclicReference "node-output/control references contain a cycle"
    ((remaining.head?.map s.nodePath).getD rootPath) remaining

/-- How the loop ends: with all nodes and no report, or stuck and with the report of the nodes that
are left. -/
def Finishes (s : Analyzer) (known : List NodeName)
    (result : Reported Analyzer GraphDiagnostic (List NodeName)) : Prop :=
  Selects s.DependsOn s.ordinal known result.value ∧ Stuck s.DependsOn known result.value ∧
    (((∀ node ∈ known, node ∈ result.value) ∧ result.reports = []) ∨
      ∃ remaining, remaining ≠ [] ∧
        (∀ node, node ∈ remaining ↔ node ∈ known ∧ node ∉ result.value) ∧
        result.reports = [cycleDiagnostic s remaining])

theorem finishes_of_empty {s t : Analyzer} {known order : List NodeName}
    (hselects : Selects s.DependsOn s.ordinal known order)
    (hnone : ∀ node, node ∈ ([] : List NodeName) ↔ node ∈ known ∧ node ∉ order) :
    Finishes s known ⟨order, t, []⟩ := by
  have hall : ∀ node ∈ known, node ∈ order := by
    intro node hnode
    by_contra hout
    cases (hnone node).mpr ⟨hnode, hout⟩
  exact ⟨hselects, fun node hnode hout => absurd (hall node hnode) hout, .inl ⟨hall, rfl⟩⟩

/-- **The loop** finishes within one round for every node that is left. -/
theorem orderReferences_finishes {s : Analyzer} {known : List NodeName} (fuel : Nat)
    {remaining order : List NodeName} (t : Analyzer) (hfuel : remaining.length ≤ fuel)
    (hselects : Selects s.DependsOn s.ordinal known order)
    (hremaining : ∀ node, node ∈ remaining ↔ node ∈ known ∧ node ∉ order) :
    Finishes s known (orderReferences s fuel remaining order t) := by
  induction fuel generalizing remaining order with
  | zero =>
    cases List.length_eq_zero_iff.mp (Nat.le_zero.mp hfuel)
    exact finishes_of_empty hselects hremaining
  | succ fuel ih =>
    unfold orderReferences
    cases hempty : remaining.isEmpty with
    | true =>
      cases List.isEmpty_iff.mp hempty
      exact finishes_of_empty hselects hremaining
    | false =>
      rw [if_neg (by decide)]
      cases hnext : nextReferenceNode s remaining order with
      | none =>
        have hsome : remaining ≠ [] := List.isEmpty_eq_false_iff.mp hempty
        refine ⟨hselects, fun node hnode hout => ?_, .inr ⟨remaining, hsome, hremaining, rfl⟩⟩
        exact Analyzer.nextReferenceNode_none hnext ((hremaining node).mpr ⟨hnode, hout⟩)
      | some next =>
        obtain ⟨hin, hready, hleast⟩ := Analyzer.nextReferenceNode_some hnext
        obtain ⟨hknown, hfresh⟩ := (hremaining next).mp hin
        have hselects' : Selects s.DependsOn s.ordinal known (order ++ [next]) :=
          hselects.snoc hknown hfresh hready fun other hother hout =>
            hleast other ((hremaining other).mpr ⟨hother, hout⟩)
        have hremaining' : ∀ node, node ∈ remaining.filter (fun node => node != next) ↔
            node ∈ known ∧ node ∉ order ++ [next] := by
          intro node
          rw [List.mem_filter, hremaining, bne_iff_ne, List.mem_append, List.mem_singleton, not_or,
            and_assoc]
        have hshort : (remaining.filter fun node => node != next).length ≤ fuel := by
          have hless : (remaining.filter fun node => node != next).length < remaining.length :=
            List.length_filter_lt_length_iff_exists.mpr ⟨next, hin, by simp⟩
          omega
        exact ih hshort hselects' hremaining'

/-! ## The order -/

theorem forEach_silent {σ δ α β : Type} {f : α → Reporting σ δ β} {as : List α}
    (h : ∀ a ∈ as, ∀ s, Silent (f a) s) (s : σ) : Silent (Reporting.forEach f as) s := by
  induction as generalizing s with
  | nil => rfl
  | cons a as ih =>
    rw [List.forall_mem_cons] at h
    rw [Reporting.forEach]
    exact silent_bind.mpr ⟨h.1 s, silent_bind.mpr ⟨ih h.2 _, rfl⟩⟩

theorem validateReferenceNames_silent {s : Analyzer} (h : s.DependenciesKnown) (t : Analyzer) :
    Silent (validateReferenceNames s) t := by
  unfold validateReferenceNames
  refine silent_bind.mpr ⟨forEach_silent (fun entry hentry _ => ?_) t, rfl⟩
  refine forEach_silent (fun dependency hdependency _ => ?_) _
  rw [emitIf, h entry hentry dependency hdependency]
  rfl

/-- What the order of the references is. -/
structure ReferenceOrder (s : Analyzer)
    (result : Reported Analyzer GraphDiagnostic (List NodeName)) : Prop where
  /-- All indexed nodes are ordered, or those that are left are reported. -/
  outcome : (result.reports = [] ∧ result.value.Perm (OrdMap.keys s.nodes)) ∨
    ∃ remaining, remaining ≠ [] ∧ result.reports = [cycleDiagnostic s remaining] ∧
      ∀ node, node ∈ remaining ↔ node ∈ OrdMap.keys s.nodes ∧ node ∉ result.value
  /-- Every node comes after the others it depends on. -/
  after : ∀ front node rest, result.value = front ++ node :: rest →
    ∀ dependency, s.DependsOn node dependency → dependency ≠ node → dependency ∈ front
  /-- Every node is the ready one with the least ordinal. -/
  least : ∀ front node rest, result.value = front ++ node :: rest →
    ∀ other ∈ OrdMap.keys s.nodes, other ∉ front → other ≠ node →
      Ready s.DependsOn front other → s.ordinal node < s.ordinal other
  /-- A cycle is reported exactly when there is one. -/
  cyclic : (∃ report ∈ result.reports, report.code = .cyclicReference) ↔ Cyclic s.DependsOn

theorem referenceTopologicalOrder_finishes {s : Analyzer} (h : s.DependenciesKnown) :
    Finishes s (OrdMap.keys s.nodes) (referenceTopologicalOrder s) := by
  have hloop : Finishes s (OrdMap.keys s.nodes) (orderReferences s (OrdMap.keys s.nodes).length
      (OrdMap.keys s.nodes) [] (validateReferenceNames s s).state) :=
    orderReferences_finishes _ _ (Nat.le_refl _) Selects.nil fun node =>
      (and_iff_left List.not_mem_nil).symm
  have hreports : (referenceTopologicalOrder s).reports =
      (orderReferences s (OrdMap.keys s.nodes).length (OrdMap.keys s.nodes) []
        (validateReferenceNames s s).state).reports := by
    change [] ++ ((validateReferenceNames s s).reports ++ _) = _
    rw [show (validateReferenceNames s s).reports = [] from validateReferenceNames_silent h s]
    rfl
  obtain ⟨hselects, hstuck, hend⟩ := hloop
  refine ⟨hselects, hstuck, ?_⟩
  rw [hreports]
  exact hend

theorem referenceTopologicalOrder_order {s : Analyzer} (hordered : s.Ordered)
    (hknown : s.DependenciesKnown) : ReferenceOrder s (referenceTopologicalOrder s) := by
  obtain ⟨hselects, hstuck, hend⟩ := referenceTopologicalOrder_finishes hknown
  have hcomplete := hselects.complete_iff hstuck fun _ _ => hknown.mem_keys
  refine ⟨?_, fun front node rest hsplit dependency => hselects.after hsplit, ?_, ?_⟩
  · refine hend.imp (fun hall => ⟨hall.2, ?_⟩) fun ⟨remaining, hne, hmem, hreports⟩ =>
      ⟨remaining, hne, hreports, hmem⟩
    exact (List.perm_ext_iff_of_nodup hselects.nodup hordered.nodup_keys).mpr fun node =>
      ⟨hselects.within node, hall.1 node⟩
  · intro front node rest hsplit other hother hnew hne hready
    have hle := (hselects.least front node rest hsplit).2 other hother hnew hready
    refine Nat.lt_of_le_of_ne hle fun hsame => hne ?_
    exact (hordered.ordinal_injective (hselects.mem_nodes hsplit) hother hsame).symm
  · rcases hend with ⟨hall, hreports⟩ | ⟨remaining, hne, hmem, hreports⟩
    · rw [hreports]
      refine iff_of_false ?_ (hcomplete.mp hall)
      rintro ⟨report, hreport, -⟩
      cases hreport
    · rw [hreports]
      refine iff_of_true ⟨_, List.mem_singleton_self _, rfl⟩ ?_
      by_contra hacyclic
      obtain ⟨node, hnode⟩ := List.exists_mem_of_ne_nil remaining hne
      obtain ⟨hin, hout⟩ := (hmem node).mp hnode
      exact hout (hcomplete.mpr hacyclic node hin)

/-- One analysis is another one under other names: the same ordinals and dependencies. -/
structure RenamedAnalysis (f : NodeName → NodeName) (s t : Analyzer) : Prop where
  injective : ∀ a ∈ OrdMap.keys s.nodes, ∀ b ∈ OrdMap.keys s.nodes, f a = f b → a = b
  covers : ∀ name', name' ∈ OrdMap.keys t.nodes ↔ ∃ name ∈ OrdMap.keys s.nodes, f name = name'
  ordinals : ∀ name ∈ OrdMap.keys s.nodes, t.ordinal (f name) = s.ordinal name
  dependencies : ∀ a ∈ OrdMap.keys s.nodes, ∀ b ∈ OrdMap.keys s.nodes,
    t.DependsOn (f a) (f b) ↔ s.DependsOn a b

/-- The order under other names is the order. -/
theorem referenceTopologicalOrder_renamed {f : NodeName → NodeName} {s t : Analyzer}
    (hordered : t.Ordered) (hknown : s.DependenciesKnown) (hknown' : t.DependenciesKnown)
    (h : RenamedAnalysis f s t) :
    (referenceTopologicalOrder t).value = (referenceTopologicalOrder s).value.map f := by
  obtain ⟨hselects, hstuck, -⟩ := referenceTopologicalOrder_finishes hknown
  obtain ⟨hselects', hstuck', -⟩ := referenceTopologicalOrder_finishes hknown'
  have hrenamed : Renamed s.DependsOn (OrdMap.keys s.nodes) f t.DependsOn (OrdMap.keys t.nodes) :=
    ⟨h.injective, h.covers, h.dependencies, fun _ _ => hknown.mem_keys,
      fun _ _ => hknown'.mem_keys⟩
  exact Selects.unique (fun a ha b hb => hordered.ordinal_injective ha hb) hselects' hstuck'
    (hrenamed.selects h.ordinals hselects) (hrenamed.stuck hselects.within hstuck)

/-- **Reference ordering**: for every graph whose recorded dependencies name indexed nodes, the
order is complete or a cycle is reported, and it is the same under other names. -/
theorem reference_order (graph : GraphSpec) (hknown : graph.indexedAnalyzer.DependenciesKnown) :
    ReferenceOrder graph.indexedAnalyzer (referenceTopologicalOrder graph.indexedAnalyzer) ∧
      ∀ (other : GraphSpec) (f : NodeName → NodeName), other.indexedAnalyzer.DependenciesKnown →
        RenamedAnalysis f graph.indexedAnalyzer other.indexedAnalyzer →
          (referenceTopologicalOrder other.indexedAnalyzer).value =
            (referenceTopologicalOrder graph.indexedAnalyzer).value.map f :=
  ⟨referenceTopologicalOrder_order graph.indexedAnalyzer_ordered hknown,
    fun other _ hknown' hrenamed =>
      referenceTopologicalOrder_renamed other.indexedAnalyzer_ordered hknown hknown' hrenamed⟩

/-- The guard of `firstItem` names `d`, so its group comes after `d`, out of the authored order. -/
theorem firstItem_reference_order :
    ReferenceOrder Sample.firstItem.indexedAnalyzer
        (referenceTopologicalOrder Sample.firstItem.indexedAnalyzer) ∧
      Sample.firstItem.indexedAnalyzer.DependsOn Sample.p Sample.d := by
  have hknown : Sample.firstItem.indexedAnalyzer.DependenciesKnown := by decide +kernel
  refine ⟨(reference_order Sample.firstItem hknown).1, [Sample.d], ?_, List.mem_singleton_self _⟩
  decide +kernel

end Zeroshot
