import Zeroshot.Reducer.Freshness
import Zeroshot.Verifier.Verify

set_option autoImplicit false

/-!
# Accepted graphs

What the verifier's silence says about a graph. The index reports every name it meets twice, so
the names of an accepted graph are unique.
-/

namespace Zeroshot

open Reporting

/-! ## The index -/

/-- The action records exactly the names, and a silent one meets each of them for the first
time. -/
def Indexes {α : Type} (x : Analysis α) (names : List NodeName) : Prop :=
  ∀ s, Silent x s → names.Nodup ∧ (∀ n ∈ names, OrdMap.get? s.nodes n = none) ∧
    ∀ n, (OrdMap.get? (x s).state.nodes n).isSome ↔ (OrdMap.get? s.nodes n).isSome ∨ n ∈ names

namespace Indexes

variable {α β : Type}

/-- An action that leaves the index alone records no name. -/
theorem of_nodes {x : Analysis α} (h : ∀ s, (x s).state.nodes = s.nodes) : Indexes x [] := by
  intro s _
  refine ⟨List.nodup_nil, fun _ hmem => (nomatch hmem), fun n => ?_⟩
  rw [h s]
  exact ⟨.inl, fun h => h.elim id fun hmem => (nomatch hmem)⟩

theorem bind {x : Analysis α} {f : α → Analysis β} {first second : List NodeName}
    (hx : Indexes x first) (hf : ∀ a, Indexes (f a) second) :
    Indexes (x >>= f) (first ++ second) := by
  intro s hsilent
  obtain ⟨hsilentx, hsilentf⟩ := silent_bind.mp hsilent
  obtain ⟨hnodup, hfresh, hnodes⟩ := hx s hsilentx
  obtain ⟨hnodup', hfresh', hnodes'⟩ := hf _ _ hsilentf
  refine ⟨?_, ?_, fun n => ?_⟩
  · refine List.nodup_append.mpr ⟨hnodup, hnodup', ?_⟩
    rintro n hn _ hn' rfl
    have hsome := (hnodes n).mpr (.inr hn)
    rw [hfresh' n hn'] at hsome
    cases hsome
  · intro n hn
    rcases List.mem_append.mp hn with hn | hn
    · exact hfresh n hn
    · rw [← Option.not_isSome_iff_eq_none]
      intro hsome
      have hsome' := (hnodes n).mpr (.inl hsome)
      rw [hfresh' n hn] at hsome'
      cases hsome'
  · rw [bind_state, hnodes' n, hnodes n, List.mem_append, or_assoc]

theorem congr {x : Analysis α} {names names' : List NodeName} (h : Indexes x names)
    (heq : names = names') : Indexes x names' := heq ▸ h

end Indexes

theorem emitIf_state (condition : Bool) (code : GraphDiagnosticCode) (message : String)
    (path : DiagnosticPath) (relatedNodes : List NodeName) (s : Analyzer) :
    (emitIf condition code message path relatedNodes s).state = s := by
  cases condition <;> rfl

theorem foldl_addDependencies_nodes {α : Type} (key : α → NodeName) (others : α → List NodeName)
    (values : List α) (s : Analyzer) :
    (values.foldl (fun s value => s.addDependencies (key value) (others value)) s).nodes =
      s.nodes := by
  induction values generalizing s with
  | nil => rfl
  | cons value values ih => exact ih _

theorem countGuard_indexes (root : NodeName) (guard : Guard) (path : DiagnosticPath) :
    Indexes (countGuard root guard path) [] := by
  refine Indexes.of_nodes fun s => ?_
  rw [countGuard, bind_state, emitIf_state]
  exact foldl_addDependencies_nodes ControlSelector.name (fun _ => []) _ _

theorem indexExecutable_indexes (name : NodeName) (attempts : PositiveInteger)
    (path : DiagnosticPath) (bindings : List WriteBinding) :
    Indexes (indexExecutable name attempts path bindings) [] := by
  refine Indexes.of_nodes fun s => ?_
  rw [indexExecutable, bind_state, emitIf_state]
  exact foldl_addDependencies_nodes (fun _ => name) (fun node => [node]) _ _

theorem validateNodeDepth_indexes (name : NodeName) (path : DiagnosticPath) (depth : Nat) :
    Indexes (validateNodeDepth name path depth) [] :=
  Indexes.of_nodes fun s => congrArg Analyzer.nodes (emitIf_state _ _ _ _ _ s)

theorem indexIdentity_indexes (node : GraphNode) (path : DiagnosticPath) :
    Indexes (indexIdentity node path) [node.name] := by
  intro s hsilent
  have hread : (Reporting.read s : Reported Analyzer GraphDiagnostic Analyzer).value = s := rfl
  cases hknown : OrdMap.get? s.nodes node.name with
  | some previous =>
    -- a known name is reported
    obtain ⟨-, hsilent⟩ := silent_bind.mp hsilent
    obtain ⟨-, hsilent⟩ := silent_bind.mp hsilent
    rw [hread, hknown] at hsilent
    exact absurd hsilent (not_silent_report _ _)
  | none =>
    refine ⟨List.nodup_singleton _, fun n hn => List.mem_singleton.mp hn ▸ hknown, fun n => ?_⟩
    have hstate : ((indexIdentity node path) s).state.nodes =
        OrdMap.insert node.name ⟨node, path, (s.authored ++ [node.name]).length - 1⟩ s.nodes := by
      rw [indexIdentity, bind_state, bind_state, hread, hknown]
      rfl
    rw [hstate, List.mem_singleton]
    by_cases hn : n = node.name
    · subst hn
      simp [OrdMap.get?_insert_self]
    · rw [OrdMap.get?_insert_ne hn]
      exact ⟨.inl, fun h => h.elim id fun h => absurd h hn⟩

/-- **The index records the names of the tree.** -/
theorem indexNode_indexes (root : NodeName) (node : GraphNode) :
    ∀ path depth, Indexes (indexNode root node path depth) node.names := by
  have hnodes : ∀ (field : String) (nodes : List GraphNode),
      (∀ n ∈ nodes, ∀ path depth, Indexes (indexNode root n path depth) n.names) →
      ∀ path depth index, Indexes (indexNodes root field nodes path depth index)
        (nodes.flatMap GraphNode.names) := by
    intro field nodes
    induction nodes with
    | nil =>
      intro _ path depth index
      exact Indexes.of_nodes fun _ => rfl
    | cons n nodes ih =>
      intro hall path depth index
      rw [indexNodes, List.flatMap_cons]
      refine (hall n List.mem_cons_self _ _).bind fun _ => ?_
      exact ih (fun m hm => hall m (List.mem_cons_of_mem _ hm)) path depth (index + 1)
  have hbranches : ∀ branches : List (Guard × GraphNode),
      (∀ b ∈ branches, ∀ path depth, Indexes (indexNode root b.2 path depth) b.2.names) →
      ∀ path depth index, Indexes (indexBranches root branches path depth index)
        ((branches.map Prod.snd).flatMap GraphNode.names) := by
    intro branches
    induction branches with
    | nil =>
      intro _ path depth index
      exact Indexes.of_nodes fun _ => rfl
    | cons b branches ih =>
      intro hall path depth index
      rw [indexBranches, List.map_cons, List.flatMap_cons]
      refine ((countGuard_indexes _ _ _).bind fun _ =>
        (hall b List.mem_cons_self _ _).bind fun _ =>
          ih (fun m hm => hall m (List.mem_cons_of_mem _ hm)) path depth (index + 1)).congr rfl
  induction node using GraphNode.induct with
  | step node | verifier node =>
    intro path depth
    rw [indexNode, GraphNode.names_eq]
    exact (indexIdentity_indexes _ _).bind fun _ =>
      ((validateNodeDepth_indexes _ _ _).bind fun _ => indexExecutable_indexes _ _ _ _).congr rfl
  | seq group children ih =>
    intro path depth
    rw [indexNode, GraphNode.names_eq]
    exact (indexIdentity_indexes _ _).bind fun _ =>
      ((validateNodeDepth_indexes _ _ _).bind fun _ => hnodes _ _ ih _ _ _).congr rfl
  | choice group branches otherwise ih ihotherwise =>
    intro path depth
    rw [indexNode, GraphNode.names_eq]
    have hotherwise : Indexes (indexOtherwise root otherwise path depth)
        (otherwise.toList.flatMap GraphNode.names) := by
      cases otherwise with
      | none => exact Indexes.of_nodes fun _ => rfl
      | some node =>
        rw [indexOtherwise]
        exact (ihotherwise node rfl _ _).congr (by simp)
    refine (indexIdentity_indexes _ _).bind fun _ =>
      ((validateNodeDepth_indexes _ _ _).bind fun _ =>
        (hbranches _ ih _ _ _).bind fun _ => hotherwise).congr ?_
    exact List.flatMap_append.symm
  | par group branches join ih =>
    intro path depth
    rw [indexNode, GraphNode.names_eq]
    refine (indexIdentity_indexes _ _).bind fun _ =>
      ((validateNodeDepth_indexes _ _ _).bind fun _ => ?_).congr rfl
    cases join with
    | first guard =>
      exact ((countGuard_indexes _ _ _).bind fun _ => hnodes _ _ ih _ _ _).congr rfl
    | all | any | quorum => exact hnodes _ _ ih _ _ _
  | loop group body untilGuard maxIterations maxIterationsInput ih =>
    intro path depth
    rw [indexNode, GraphNode.names_eq]
    refine (indexIdentity_indexes _ _).bind fun _ =>
      ((validateNodeDepth_indexes _ _ _).bind fun _ => ?_).congr rfl
    have hupdate : Indexes (update fun analyzer : Analyzer =>
        { analyzer with loops := analyzer.loops ++ [group.name] } : Analysis Unit) [] :=
      Indexes.of_nodes fun _ => rfl
    refine (hupdate.bind fun _ => ?_).congr (List.nil_append _)
    cases untilGuard with
    | none => exact (ih _ _).congr (by simp)
    | some guard =>
      exact ((countGuard_indexes _ _ _).bind fun _ => ih _ _).congr (by simp)
  | map group body overItems maxItems ih =>
    intro path depth
    rw [indexNode, GraphNode.names_eq]
    exact (indexIdentity_indexes _ _).bind fun _ =>
      ((validateNodeDepth_indexes _ _ _).bind fun _ => ih _ _).congr
        (by simp [GraphNode.children])
  | succeed node | fail node =>
    intro path depth
    rw [indexNode, GraphNode.names_eq]
    exact (indexIdentity_indexes _ _).bind fun _ =>
      ((validateNodeDepth_indexes _ _ _).bind fun _ =>
        Indexes.of_nodes fun _ => rfl).congr rfl

/-! ## Silence -/

/-- Nothing is reported about an accepted graph. -/
theorem Verified.silent {registry : WorkerRegistry} {graph : GraphSpec}
    (h : Verified registry graph) : Silent (analyzeGraph graph) {} := by
  obtain ⟨compiled, hcompiled⟩ := h
  unfold verify at hcompiled
  by_contra hreports
  have hne : (!(analyzeGraph graph {}).reports.isEmpty) = true := by
    cases hlist : (analyzeGraph graph {}).reports with
    | nil => exact absurd hlist hreports
    | cons => rfl
  rw [if_pos hne] at hcompiled
  cases hcompiled

/-- **The names of an accepted graph are unique.** -/
theorem Verified.uniqueNames {registry : WorkerRegistry} {graph : GraphSpec}
    (h : Verified registry graph) : graph.root.UniqueNames := by
  have hsilent := h.silent
  rw [analyzeGraph] at hsilent
  obtain ⟨-, hrest⟩ := silent_bind.mp hsilent
  obtain ⟨hindex, -⟩ := silent_bind.mp hrest
  exact (indexNode_indexes _ _ _ _ _ hindex).1

end Zeroshot
