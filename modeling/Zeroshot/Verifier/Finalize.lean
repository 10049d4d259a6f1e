import Zeroshot.Protocol.Canonical
import Zeroshot.Verifier.Totals

set_option autoImplicit false

/-!
# Verification with its last step

The production verifier ends by writing the compiled graph in canonical form, and an error there is
reported as internal. It never is: flattening nested conjunctions only moves operands that
`guard_node_count` has already counted, so the flattened list stays within the collection limit
(`normalizeGuard_bounded`), no list becomes empty, and nothing the contract encodes is a float.
With the totality of the structural bounds, every verification ends in an answer about the graph
(**`verification_never_internal`**).
-/

namespace Zeroshot

open Reporting

/-! ## The compiled graph as JSON -/

def PolicyDefault.asStr : PolicyDefault → String
  | deny => "deny"

def PolicyBinding.toValue (binding : PolicyBinding) : Value :=
  .object [("policy", .string binding.policy.asStr), ("default", .string binding.default.asStr)]

def TerminationWitness.toValue : TerminationWitness → Value
  | .acyclic order =>
    .object [("kind", .string "acyclic"), ("order", listValue Identifier.toValue order)]
  | .bounded ranking maxIterations =>
    .object [("kind", .string "bounded"), ("ranking", listValue FieldPath.toValue ranking),
      ("maxIterations", maxIterations.toValue)]

def StructuralBounds.toValue (bounds : StructuralBounds) : Value :=
  .object [("termination", bounds.termination.toValue),
    ("maxNodeExecutions", bounds.maxNodeExecutions.toValue),
    ("peakConcurrency", bounds.peakConcurrency.toValue),
    ("attemptsPerNode",
      .object (bounds.attemptsPerNode.map fun entry => (entry.1.asStr, entry.2.toValue)))]

/-- The compiled graph as JSON, with `root` in the place of its root. -/
def CompiledGraphIr.toValue (compiled : CompiledGraphIr) (root : GraphNode) : Value :=
  .object [("profile", .string compiled.graph.profile.asStr),
    ("initialInput", compiled.graph.initialInput.toValue),
    ("policy", compiled.graph.policy.toValue), ("root", root.toValue),
    ("bounds", compiled.bounds.toValue)]

/-- `CompiledGraphIr::canonical_bytes`. The attempts are already in the order of their keys. -/
def CompiledGraphIr.canonicalBytes (compiled : CompiledGraphIr) :
    Except CanonicalError (List UInt8) := do
  let root ← normalizeNode compiled.graph.root
  writeCanonicalJson (compiled.toValue root)

/-! ## The verifier -/

/-- `VerifiedGraph`. -/
structure VerifiedGraph where
  compiledIr : CompiledGraphIr
  diagnostics : List GraphDiagnostic

/-- `finalize_verified`. -/
def finalizeVerified (compiled : CompiledGraphIr) : Except VerificationError VerifiedGraph :=
  match compiled.canonicalBytes with
  | .error error =>
    .error (.internal ("validated graph could not be canonicalized: " ++ error.message))
  | .ok _ => .ok ⟨compiled, []⟩

/-- `ProductionGraphVerifier::verify`, with the last step. -/
def ProductionGraphVerifier.verify (registry : WorkerRegistry) (graph : GraphSpec) :
    Except VerificationError VerifiedGraph := do
  let compiled ← Zeroshot.verify registry graph
  finalizeVerified compiled

/-! ## Counted guards -/

theorem nodeCounts_eq (guards : List Guard) :
    nodeCounts guards = (guards.map Guard.nodeCount).sum := by
  induction guards with
  | nil => rfl
  | cons guard guards ih => rw [nodeCounts, ih, List.map_cons, List.sum_cons]

theorem nodeCounts_append (first second : List Guard) :
    nodeCounts (first ++ second) = nodeCounts first + nodeCounts second := by
  rw [nodeCounts_eq, nodeCounts_eq, nodeCounts_eq, List.map_append, List.sum_append]

theorem Guard.nodeCount_pos (guard : Guard) : 0 < guard.nodeCount := by
  cases guard <;> unfold nodeCount <;> omega

theorem length_le_nodeCounts (guards : List Guard) : guards.length ≤ nodeCounts guards := by
  induction guards with
  | nil => exact Nat.le_refl 0
  | cons guard guards ih =>
    rw [nodeCounts, List.length_cons]
    have hpos := guard.nodeCount_pos
    omega

/-- Fewer operands count less. -/
theorem nodeCounts_le_of_subperm {first second : List Guard} (h : first.Subperm second) :
    nodeCounts first ≤ nodeCounts second := by
  obtain ⟨kept, hperm, hsublist⟩ := h
  have hcounts : nodeCounts kept = nodeCounts first := by
    rw [nodeCounts_eq, nodeCounts_eq]
    exact (hperm.map Guard.nodeCount).sum_nat
  rw [← hcounts]
  clear hperm hcounts
  induction hsublist with
  | slnil => exact Nat.le_refl _
  | cons guard _ ih =>
    rw [nodeCounts]
    omega
  | cons_cons guard _ ih =>
    rw [nodeCounts, nodeCounts]
    omega

theorem nodeCounts_operands_le (operation : GuardOperation) (guard : Guard) :
    nodeCounts (operation.operands guard) ≤ guard.nodeCount := by
  cases operation <;> cases guard <;>
    simp only [GuardOperation.operands, nodeCounts, Guard.nodeCount] <;> omega

theorem collectionLimits_of {α : Type} {values : List α} (hne : values ≠ [])
    (hle : values.length ≤ maxCollectionItems) : collectionLimits values = true := by
  cases values with
  | nil => exact absurd rfl hne
  | cons value values => simpa [collectionLimits] using hle

theorem ne_nil_of_collectionLimits {α : Type} {values : List α}
    (h : collectionLimits values = true) : values ≠ [] := by
  rintro rfl
  cases h

/-- The flattened operands of a counted guard are normalized. -/
theorem normalizeFlattened_bounded {flattened : List Guard} (hne : flattened ≠ [])
    (hcount : nodeCounts flattened ≤ maxGuardNodes) : ∃ guards,
    normalizeFlattened flattened = .ok guards ∧ guards ≠ [] ∧
      nodeCounts guards ≤ nodeCounts flattened := by
  obtain ⟨guards, hguards, hsubperm, hempty⟩ :=
    sortAndDeduplicate_subperm Guard.toValue_floatFree flattened
  have hguardsNe : guards ≠ [] := fun hnil => hne (hempty hnil)
  have hlimits : collectionLimits guards = true := by
    refine collectionLimits_of hguardsNe ?_
    have hlength := hsubperm.length_le
    have hcounted := length_le_nodeCounts flattened
    have hceiling : maxGuardNodes = maxCollectionItems := rfl
    omega
  refine ⟨guards, ?_, hguardsNe, nodeCounts_le_of_subperm hsubperm⟩
  rw [normalizeFlattened, hguards]
  exact normalizedVec_of hlimits

/-- The guard has a normal form that counts no more and offers operands to either operation. -/
def Guard.Normalized (guard : Guard) : Prop :=
  ∃ normalized, normalizeGuard guard = .ok normalized ∧ normalized.nodeCount ≤ guard.nodeCount ∧
    ∀ operation : GuardOperation, operation.operands normalized ≠ []

mutual

/-- **A counted guard has a normal form.** -/
theorem normalizeGuard_bounded : ∀ guard : Guard, guard.wellFormed = true →
    guard.nodeCount ≤ maxGuardNodes → guard.Normalized
  | .inLabels _ _, _, _ | .kOfMap _ _ _, _, _ =>
    ⟨_, rfl, Nat.le_refl _, fun operation => by
      cases operation <;> simp [GuardOperation.operands]⟩
  | .kOfN count values labels, hwell, _ => by
    obtain ⟨sorted, hsorted, hperm⟩ :=
      sortByCanonicalJson_perm ControlSelector.toValue_floatFree values
    have hlimits : collectionLimits sorted = true := by
      have hvalues : collectionLimits values = true := hwell
      rw [collectionLimits, hperm.length_eq, hperm.isEmpty_eq]
      exact hvalues
    refine ⟨.kOfN count sorted labels, ?_, Nat.le_refl _, fun operation => ?_⟩
    · rw [normalizeGuard, normalizeSelectors, hsorted]
      simp only [bind, Except.bind, normalizedVec_of hlimits]
      rfl
    · cases operation <;> simp [GuardOperation.operands]
  | .not guard, hwell, hcount => by
    rw [Guard.nodeCount] at hcount
    obtain ⟨normalized, hnormalized, hle, -⟩ := normalizeGuard_bounded guard hwell (by omega)
    refine ⟨.not normalized, ?_, ?_, fun operation => ?_⟩
    · rw [normalizeGuard, hnormalized]
      rfl
    · rw [Guard.nodeCount, Guard.nodeCount]
      omega
    · cases operation <;> simp [GuardOperation.operands]
  | .all guards, hwell, hcount => by
    rw [Guard.wellFormed, Bool.and_eq_true] at hwell
    rw [Guard.nodeCount] at hcount
    obtain ⟨flattened, hflattened, hle, hne⟩ :=
      flattenGuards_bounded .all guards hwell.2 (by omega)
    obtain ⟨sorted, hsorted, hsortedNe, hsortedLe⟩ := normalizeFlattened_bounded
      (hne (ne_nil_of_collectionLimits hwell.1)) (by omega)
    refine ⟨.all sorted, ?_, ?_, fun operation => ?_⟩
    · rw [normalizeGuard, hflattened]
      simp only [bind, Except.bind, hsorted]
      rfl
    · rw [Guard.nodeCount, Guard.nodeCount]
      omega
    · cases operation <;> simp [GuardOperation.operands, hsortedNe]
  | .any guards, hwell, hcount => by
    rw [Guard.wellFormed, Bool.and_eq_true] at hwell
    rw [Guard.nodeCount] at hcount
    obtain ⟨flattened, hflattened, hle, hne⟩ :=
      flattenGuards_bounded .any guards hwell.2 (by omega)
    obtain ⟨sorted, hsorted, hsortedNe, hsortedLe⟩ := normalizeFlattened_bounded
      (hne (ne_nil_of_collectionLimits hwell.1)) (by omega)
    refine ⟨.any sorted, ?_, ?_, fun operation => ?_⟩
    · rw [normalizeGuard, hflattened]
      simp only [bind, Except.bind, hsorted]
      rfl
    · rw [Guard.nodeCount, Guard.nodeCount]
      omega
    · cases operation <;> simp [GuardOperation.operands, hsortedNe]

/-- Flattening keeps the count of the operands. -/
theorem flattenGuards_bounded (operation : GuardOperation) : ∀ guards : List Guard,
    guardsWellFormed guards = true → nodeCounts guards ≤ maxGuardNodes → ∃ flattened,
      flattenGuards operation guards = .ok flattened ∧
        nodeCounts flattened ≤ nodeCounts guards ∧ (guards ≠ [] → flattened ≠ [])
  | [], _, _ => ⟨[], rfl, Nat.le_refl _, fun h => h⟩
  | guard :: guards, hwell, hcount => by
    rw [guardsWellFormed, Bool.and_eq_true] at hwell
    rw [nodeCounts] at hcount
    obtain ⟨normalized, hnormalized, hle, hoperands⟩ :=
      normalizeGuard_bounded guard hwell.1 (by omega)
    obtain ⟨flattened, hflattened, hflattenedLe, -⟩ :=
      flattenGuards_bounded operation guards hwell.2 (by omega)
    refine ⟨operation.operands normalized ++ flattened, ?_, ?_, fun _ hnil => ?_⟩
    · rw [flattenGuards, hnormalized, hflattened]
      rfl
    · have hadded := nodeCounts_operands_le operation normalized
      rw [nodeCounts_append, nodeCounts]
      omega
    · exact hoperands operation (List.append_eq_nil_iff.mp hnil).1

end

/-! ## Normal forms of nodes -/

/-- The guards the node itself holds. -/
def GraphNode.guards : GraphNode → List Guard
  | .choice _ branches _ => branches.map Prod.fst
  | .par _ _ (.first when) => [when]
  | .loop _ _ untilGuard _ _ => untilGuard.toList
  | _ => []

/-- The node's collections are within their limits and its guards within their count. -/
def GraphNode.Bounded (node : GraphNode) : Prop :=
  node.locallyWellFormed = true ∧ ∀ guard ∈ node.guards, guard.nodeCount ≤ maxGuardNodes

theorem GraphNode.forall_descendants {P : GraphNode → Prop} {node : GraphNode} :
    (∀ d ∈ node.descendants, P d) ↔ P node ∧ ∀ c ∈ node.children, ∀ d ∈ c.descendants, P d := by
  rw [node.descendants_eq, List.forall_mem_cons]
  simp only [List.mem_flatMap, forall_exists_index, and_imp]
  exact and_congr_right fun _ => ⟨fun h c hc d hd => h d c hc hd, fun h d c hc hd => h c hc d hd⟩

theorem normalizePromotions_total (group : Group) : ∃ normalized,
    normalizePromotions group = .ok normalized := by
  obtain ⟨paths, hpaths, -⟩ :=
    sortAndDeduplicate_subperm FieldPath.toValue_floatFree group.promotedStatePaths
  exact ⟨_, by rw [normalizePromotions, hpaths]; rfl⟩

theorem normalizeWorkerBindings_total (inputs : List InputBinding) (writes : List WriteBinding) :
    ∃ bindings, normalizeWorkerBindings inputs writes = .ok bindings := by
  obtain ⟨sortedInputs, hinputs, -⟩ :=
    sortByCanonicalJson_perm InputBinding.toValue_floatFree inputs
  obtain ⟨sortedWrites, hwrites, -⟩ :=
    sortByCanonicalJson_perm WriteBinding.toValue_floatFree writes
  exact ⟨(sortedInputs, sortedWrites), by rw [normalizeWorkerBindings, hinputs, hwrites]; rfl⟩

theorem normalizeNodes_total {nodes : List GraphNode}
    (h : ∀ node ∈ nodes, ∃ normalized, normalizeNode node = .ok normalized) :
    ∃ normalized, normalizeNodes nodes = .ok normalized ∧ normalized.length = nodes.length := by
  induction nodes with
  | nil => exact ⟨[], rfl, rfl⟩
  | cons node nodes ih =>
    rw [List.forall_mem_cons] at h
    obtain ⟨first, hfirst⟩ := h.1
    obtain ⟨rest, hrest, hlength⟩ := ih h.2
    refine ⟨first :: rest, ?_, by rw [List.length_cons, hlength, List.length_cons]⟩
    rw [normalizeNodes, hfirst, hrest]
    rfl

theorem normalizeBranches_total {branches : List (Guard × GraphNode)}
    (hguards : ∀ branch ∈ branches, branch.1.Normalized)
    (hnodes : ∀ branch ∈ branches, ∃ normalized, normalizeNode branch.2 = .ok normalized) :
    ∃ normalized, normalizeBranches branches = .ok normalized ∧
      normalized.length = branches.length := by
  induction branches with
  | nil => exact ⟨[], rfl, rfl⟩
  | cons branch branches ih =>
    rw [List.forall_mem_cons] at hguards hnodes
    obtain ⟨when, hwhen, -⟩ := hguards.1
    obtain ⟨node, hnode⟩ := hnodes.1
    obtain ⟨rest, hrest, hlength⟩ := ih hguards.2 hnodes.2
    refine ⟨(when, node) :: rest, ?_, by rw [List.length_cons, hlength, List.length_cons]⟩
    rw [normalizeBranches, hwhen, hnode, hrest]
    rfl

theorem collectionLimits_of_length {α β : Type} {values : List α} {others : List β}
    (hlength : others.length = values.length) (h : collectionLimits values = true) :
    collectionLimits others = true := by
  refine collectionLimits_of ?_ ?_
  · have hpos := List.length_pos_of_ne_nil (ne_nil_of_collectionLimits h)
    exact List.ne_nil_of_length_pos (hlength ▸ hpos)
  · rw [collectionLimits, Bool.and_eq_true, decide_eq_true_iff] at h
    exact hlength ▸ h.2

theorem GraphNode.locallyWellFormed_par {group : Group} {branches : List GraphNode} {join : Join}
    (h : (GraphNode.par group branches join).locallyWellFormed = true) :
    collectionLimits branches = true ∧ ∀ when, join = .first when → when.wellFormed = true := by
  cases join with
  | all | any | quorum =>
    simp only [locallyWellFormed, Bool.and_eq_true] at h
    exact ⟨h.1.2, fun _ hjoin => (by cases hjoin)⟩
  | first guard =>
    simp only [locallyWellFormed, Bool.and_eq_true] at h
    exact ⟨h.1.2, fun when hjoin => Join.first.inj hjoin ▸ h.2⟩

/-- **A bounded tree has a normal form.** -/
theorem normalizeNode_total (node : GraphNode) : (∀ d ∈ node.descendants, d.Bounded) →
    ∃ normalized, normalizeNode node = .ok normalized := by
  induction node using GraphNode.induct with
  | step node | verifier node =>
    intro _
    obtain ⟨bindings, hbindings⟩ :=
      normalizeWorkerBindings_total node.inputBindings node.writeBindings
    exact ⟨_, by rw [normalizeNode, hbindings]; rfl⟩
  | succeed node =>
    intro _
    obtain ⟨bindings, hbindings, -⟩ :=
      sortByCanonicalJson_perm InputBinding.toValue_floatFree node.bindings
    exact ⟨_, by rw [normalizeNode, hbindings]; rfl⟩
  | fail node => exact fun _ => ⟨_, rfl⟩
  | seq group children ih =>
    intro h
    obtain ⟨hnode, hchildren⟩ := GraphNode.forall_descendants.mp h
    obtain ⟨nodes, hnodes, hlength⟩ :=
      normalizeNodes_total fun c hc => ih c hc (hchildren c hc)
    obtain ⟨promoted, hpromoted⟩ := normalizePromotions_total group
    have hlimits := collectionLimits_of_length hlength (Bool.and_eq_true _ _ ▸ hnode.1).2
    refine ⟨.seq promoted nodes, ?_⟩
    rw [normalizeNode, hnodes]
    simp only [bind, Except.bind, normalizedVec_of hlimits, hpromoted]
    rfl
  | choice group branches otherwise ih ihotherwise =>
    intro h
    obtain ⟨hnode, hchildren⟩ := GraphNode.forall_descendants.mp h
    obtain ⟨hlocal, hguards⟩ := hnode
    rw [GraphNode.locallyWellFormed, Bool.and_eq_true, Bool.and_eq_true, List.all_eq_true] at hlocal
    have hbranches : ∀ branch ∈ branches, ∀ d ∈ branch.2.descendants, d.Bounded :=
      fun branch hbranch => hchildren branch.2
        (List.mem_append_left _ (List.mem_map_of_mem hbranch))
    obtain ⟨routes, hroutes, hlength⟩ := normalizeBranches_total
      (fun branch hbranch => normalizeGuard_bounded branch.1 (hlocal.2 branch hbranch)
        (hguards branch.1 (List.mem_map_of_mem hbranch)))
      fun branch hbranch => ih branch hbranch (hbranches branch hbranch)
    obtain ⟨promoted, hpromoted⟩ := normalizePromotions_total group
    have hlimits := collectionLimits_of_length hlength hlocal.1.2
    obtain ⟨fallback, hfallback⟩ : ∃ fallback, normalizeOtherwise otherwise = .ok fallback := by
      cases otherwise with
      | none => exact ⟨none, rfl⟩
      | some node =>
        obtain ⟨normalized, hnormalized⟩ := ihotherwise node rfl
          (hchildren node (List.mem_append_right _ (List.mem_singleton_self _)))
        exact ⟨some normalized, by rw [normalizeOtherwise, hnormalized]; rfl⟩
    refine ⟨.choice promoted routes fallback, ?_⟩
    rw [normalizeNode, hroutes]
    simp only [bind, Except.bind, normalizedVec_of hlimits, hfallback, hpromoted]
    rfl
  | par group branches join ih =>
    intro h
    obtain ⟨hnode, hchildren⟩ := GraphNode.forall_descendants.mp h
    obtain ⟨hlocal, hguards⟩ := hnode
    obtain ⟨hcollection, hfirst⟩ := GraphNode.locallyWellFormed_par hlocal
    obtain ⟨nodes, hnodes, hlength⟩ :=
      normalizeNodes_total fun c hc => ih c hc (hchildren c hc)
    obtain ⟨promoted, hpromoted⟩ := normalizePromotions_total group
    have hsorted : (nodes.insertionSort nameNotAfter).length = branches.length := by
      rw [List.length_insertionSort, hlength]
    have hlimits := collectionLimits_of_length hsorted hcollection
    obtain ⟨normalized, hjoin⟩ : ∃ normalized, normalizeJoin join = .ok normalized := by
      cases join with
      | all | any | quorum => exact ⟨_, rfl⟩
      | first when =>
        obtain ⟨guard, hguard, -⟩ := normalizeGuard_bounded when (hfirst when rfl)
          (hguards when (List.mem_singleton_self when))
        exact ⟨.first guard, by rw [normalizeJoin, hguard]; rfl⟩
    refine ⟨.par promoted (nodes.insertionSort nameNotAfter) normalized, ?_⟩
    rw [normalizeNode, hnodes]
    simp only [bind, Except.bind, normalizedVec_of hlimits, hpromoted, hjoin]
    rfl
  | loop group body untilGuard maxIterations maxIterationsInput ih =>
    intro h
    obtain ⟨hnode, hchildren⟩ := GraphNode.forall_descendants.mp h
    obtain ⟨hlocal, hguards⟩ := hnode
    rw [GraphNode.locallyWellFormed, Bool.and_eq_true] at hlocal
    obtain ⟨normalized, hbody⟩ := ih (hchildren body (List.mem_singleton_self body))
    obtain ⟨promoted, hpromoted⟩ := normalizePromotions_total group
    obtain ⟨exit, hexit⟩ : ∃ exit, normalizeUntil untilGuard = .ok exit := by
      cases untilGuard with
      | none => exact ⟨none, rfl⟩
      | some guard =>
        obtain ⟨normal, hnormal, -⟩ := normalizeGuard_bounded guard hlocal.2
          (hguards guard (List.mem_singleton_self guard))
        exact ⟨some normal, by rw [normalizeUntil, hnormal]; rfl⟩
    refine ⟨.loop promoted normalized exit maxIterations maxIterationsInput, ?_⟩
    rw [normalizeNode, hbody]
    simp only [bind, Except.bind, hexit, hpromoted]
    rfl
  | map group body overItems maxItems ih =>
    intro h
    obtain ⟨-, hchildren⟩ := GraphNode.forall_descendants.mp h
    obtain ⟨normalized, hbody⟩ := ih (hchildren body (List.mem_singleton_self body))
    obtain ⟨promoted, hpromoted⟩ := normalizePromotions_total group
    refine ⟨.map promoted normalized overItems maxItems, ?_⟩
    rw [normalizeNode, hbody]
    simp only [bind, Except.bind, hpromoted]
    rfl

/-! ## The guards of a silent index -/

theorem countGuard_silent {root : NodeName} {guard : Guard} {path : DiagnosticPath} {s : Analyzer}
    (h : Silent (countGuard root guard path) s) : guard.nodeCount ≤ maxGuardNodes := by
  obtain ⟨-, hceiling⟩ := silent_bind.mp h
  exact Nat.le_of_not_lt (of_decide_eq_false (silent_reportIf.mp hceiling))

/-- Every guard below the node is within the count. -/
def GraphNode.GuardsCounted (node : GraphNode) : Prop :=
  ∀ d ∈ node.descendants, ∀ guard ∈ d.guards, guard.nodeCount ≤ maxGuardNodes

/-- Silence of an index step on a node counts its guards. -/
def CountsGuards (node : GraphNode) : Prop :=
  ∀ root path depth s, Silent (indexNode root node path depth) s → node.GuardsCounted

theorem indexNodes_counted {root : NodeName} {field : String} {nodes : List GraphNode}
    (hnodes : ∀ node ∈ nodes, CountsGuards node) {path : DiagnosticPath} {depth index : Nat}
    {s : Analyzer} (h : Silent (indexNodes root field nodes path depth index) s) :
    ∀ node ∈ nodes, node.GuardsCounted := by
  induction nodes generalizing index s with
  | nil => exact fun _ hnode => absurd hnode List.not_mem_nil
  | cons node nodes ih =>
    rw [List.forall_mem_cons] at hnodes
    rw [indexNodes] at h
    obtain ⟨hhead, htail⟩ := silent_bind.mp h
    exact List.forall_mem_cons.mpr ⟨hnodes.1 _ _ _ _ hhead, ih hnodes.2 htail⟩

theorem indexBranches_counted {root : NodeName} {branches : List (Guard × GraphNode)}
    (hnodes : ∀ branch ∈ branches, CountsGuards branch.2) {path : DiagnosticPath}
    {depth index : Nat} {s : Analyzer}
    (h : Silent (indexBranches root branches path depth index) s) :
    ∀ branch ∈ branches, branch.1.nodeCount ≤ maxGuardNodes ∧ branch.2.GuardsCounted := by
  induction branches generalizing index s with
  | nil => exact fun _ hbranch => absurd hbranch List.not_mem_nil
  | cons branch branches ih =>
    rw [List.forall_mem_cons] at hnodes
    rw [indexBranches] at h
    obtain ⟨hguard, h⟩ := silent_bind.mp h
    obtain ⟨hnode, htail⟩ := silent_bind.mp h
    exact List.forall_mem_cons.mpr
      ⟨⟨countGuard_silent hguard, hnodes.1 _ _ _ _ hnode⟩, ih hnodes.2 htail⟩

/-- **A silent index has counted every guard of the tree.** -/
theorem indexNode_counted (node : GraphNode) : CountsGuards node := by
  induction node using GraphNode.induct with
  | step node | verifier node | succeed node | fail node =>
    intro root path depth s h
    refine GraphNode.forall_descendants.mpr ⟨fun _ hguard => absurd hguard List.not_mem_nil, ?_⟩
    exact fun _ hchild => absurd hchild List.not_mem_nil
  | seq group children ih =>
    intro root path depth s h
    rw [indexNode] at h
    obtain ⟨-, h⟩ := silent_bind.mp h
    obtain ⟨-, h⟩ := silent_bind.mp h
    refine GraphNode.forall_descendants.mpr ⟨fun _ hguard => absurd hguard List.not_mem_nil, ?_⟩
    exact indexNodes_counted ih h
  | choice group branches otherwise ih ihotherwise =>
    intro root path depth s h
    rw [indexNode] at h
    obtain ⟨-, h⟩ := silent_bind.mp h
    obtain ⟨-, h⟩ := silent_bind.mp h
    obtain ⟨hbranches, hotherwise⟩ := silent_bind.mp h
    have hcounted := indexBranches_counted ih hbranches
    refine GraphNode.forall_descendants.mpr ⟨fun guard hguard => ?_, fun c hc => ?_⟩
    · obtain ⟨branch, hbranch, rfl⟩ := List.mem_map.mp hguard
      exact (hcounted branch hbranch).1
    · rw [GraphNode.children, List.mem_append, List.mem_map, Option.mem_toList] at hc
      rcases hc with ⟨branch, hbranch, rfl⟩ | hc
      · exact (hcounted branch hbranch).2
      · obtain rfl : otherwise = some c := hc
        exact ihotherwise c rfl _ _ _ _ hotherwise
  | par group branches join ih =>
    intro root path depth s h
    rw [indexNode] at h
    obtain ⟨-, h⟩ := silent_bind.mp h
    obtain ⟨-, h⟩ := silent_bind.mp h
    cases join with
    | first when =>
      obtain ⟨hwhen, hbranches⟩ := silent_bind.mp h
      refine GraphNode.forall_descendants.mpr ⟨fun guard hguard => ?_, ?_⟩
      · rw [List.mem_singleton.mp hguard]
        exact countGuard_silent hwhen
      · exact indexNodes_counted ih hbranches
    | all | any | quorum =>
      refine GraphNode.forall_descendants.mpr ⟨fun _ hguard => absurd hguard List.not_mem_nil, ?_⟩
      exact indexNodes_counted ih h
  | loop group body untilGuard maxIterations maxIterationsInput ih =>
    intro root path depth s h
    rw [indexNode] at h
    obtain ⟨-, h⟩ := silent_bind.mp h
    obtain ⟨-, h⟩ := silent_bind.mp h
    obtain ⟨-, h⟩ := silent_bind.mp h
    cases untilGuard with
    | none =>
      refine GraphNode.forall_descendants.mpr
        ⟨fun _ hguard => absurd hguard List.not_mem_nil, fun c hc => ?_⟩
      rw [List.mem_singleton.mp hc]
      exact ih _ _ _ _ h
    | some guard =>
      obtain ⟨hguard, hbody⟩ := silent_bind.mp h
      refine GraphNode.forall_descendants.mpr ⟨fun exit hexit => ?_, fun c hc => ?_⟩
      · rw [List.mem_singleton.mp hexit]
        exact countGuard_silent hguard
      · rw [List.mem_singleton.mp hc]
        exact ih _ _ _ _ hbody
  | map group body overItems maxItems ih =>
    intro root path depth s h
    rw [indexNode] at h
    obtain ⟨-, h⟩ := silent_bind.mp h
    obtain ⟨-, h⟩ := silent_bind.mp h
    refine GraphNode.forall_descendants.mpr
      ⟨fun _ hguard => absurd hguard List.not_mem_nil, fun c hc => ?_⟩
    rw [List.mem_singleton.mp hc]
    exact ih _ _ _ _ h

/-- **The root of a graph whose analysis is silent has a normal form.** -/
theorem normalizeNode_of_silent {graph : GraphSpec} (h : Silent (analyzeGraph graph) {}) :
    ∃ normalized, normalizeNode graph.root = .ok normalized := by
  obtain ⟨-, h⟩ := silent_bind.mp h
  obtain ⟨hindex, -⟩ := silent_bind.mp h
  have hcounted := indexNode_counted graph.root _ _ _ _ hindex
  have hwell := graph.wellFormed
  rw [Bool.and_eq_true, List.all_eq_true] at hwell
  exact normalizeNode_total graph.root fun d hd => ⟨hwell.2 d hd, hcounted d hd⟩

/-! ## Every verification ends in an answer -/

theorem StructuralBounds.toValue_floatFree (bounds : StructuralBounds) :
    bounds.toValue.floatFree = true := by
  have hattempts : fieldsFloatFree
      (bounds.attemptsPerNode.map fun entry => (entry.1.asStr, entry.2.toValue)) = true := by
    refine fieldsFloatFree_of fun field hfield => ?_
    obtain ⟨entry, -, rfl⟩ := List.mem_map.mp hfield
    rfl
  have htermination : bounds.termination.toValue.floatFree = true := by
    cases bounds.termination with
    | acyclic order =>
      have horder : (listValue Identifier.toValue order).floatFree = true :=
        listValue_floatFree fun _ _ => rfl
      simp [TerminationWitness.toValue, Value.floatFree, fieldsFloatFree, horder]
    | bounded ranking maxIterations =>
      have hranking : (listValue FieldPath.toValue ranking).floatFree = true :=
        listValue_floatFree fun _ _ => FieldPath.toValue_floatFree _
      simp [TerminationWitness.toValue, Value.floatFree, fieldsFloatFree, hranking]
  simp [toValue, Value.floatFree, fieldsFloatFree, hattempts, htermination]

theorem CompiledGraphIr.toValue_floatFree (compiled : CompiledGraphIr) (root : GraphNode) :
    (compiled.toValue root).floatFree = true := by
  simp [toValue, PolicyBinding.toValue, Value.floatFree, fieldsFloatFree,
    GraphNode.toValue_floatFree, StructuralBounds.toValue_floatFree]

/-- **The compiled form of a graph whose analysis is silent has canonical bytes.** -/
theorem canonicalBytes_of_silent {graph : GraphSpec} (h : Silent (analyzeGraph graph) {})
    (bounds : StructuralBounds) : ∃ bytes,
    (⟨graph, bounds⟩ : CompiledGraphIr).canonicalBytes = .ok bytes := by
  obtain ⟨root, hroot⟩ := normalizeNode_of_silent h
  obtain ⟨bytes, hbytes⟩ := writeCanonicalJson_of_floatFree _
    (CompiledGraphIr.toValue_floatFree ⟨graph, bounds⟩ root)
  refine ⟨bytes, ?_⟩
  rw [CompiledGraphIr.canonicalBytes, hroot]
  exact hbytes

theorem sortDiagnostics_ne_nil {diagnostics : List GraphDiagnostic} (h : diagnostics ≠ []) :
    sortDiagnostics diagnostics ≠ [] := by
  intro hnil
  have hperm := List.perm_insertionSort notAfter diagnostics
  rw [show diagnostics.insertionSort notAfter = [] from hnil, List.nil_perm] at hperm
  exact h hperm

/-- A graph whose analysis is silent has structural bounds, and its compiled form canonical
bytes. -/
def Compiles (graph : GraphSpec) : Prop :=
  ∃ bounds bytes, ((analyzeGraph graph {}).value.2.bind fun fold =>
      buildBounds (analyzeGraph graph {}).state fold (analyzeGraph graph {}).value.1) =
        some bounds ∧
    (⟨graph, bounds⟩ : CompiledGraphIr).canonicalBytes = .ok bytes

theorem compiles_of_silent {graph : GraphSpec} (h : Silent (analyzeGraph graph) {}) :
    Compiles graph := by
  obtain ⟨bounds, hbounds⟩ := buildBounds_of_silent h
  obtain ⟨bytes, hbytes⟩ := canonicalBytes_of_silent h bounds
  exact ⟨bounds, bytes, hbounds, hbytes⟩

/-- An accepted graph is finalized: the last step changes no answer. -/
theorem finalized_of_verify {registry : WorkerRegistry} {graph : GraphSpec}
    {compiled : CompiledGraphIr} (h : verify registry graph = .ok compiled) :
    ProductionGraphVerifier.verify registry graph = .ok ⟨compiled, []⟩ := by
  have hsame : ProductionGraphVerifier.verify registry graph = finalizeVerified compiled := by
    rw [ProductionGraphVerifier.verify, h]
    rfl
  rw [hsame]
  unfold verify at h
  by_cases hsilent : (analyzeGraph graph {}).reports = []
  · obtain ⟨bounds, bytes, hbounds, hbytes⟩ := compiles_of_silent hsilent
    by_cases hworkers : checkGraphWorkers registry graph = []
    · simp only [hsilent, hworkers, hbounds, List.isEmpty_nil, Bool.not_true, Bool.false_eq_true,
        if_false, Except.ok.injEq] at h
      rw [finalizeVerified, ← h, hbytes]
    · simp [hsilent, hworkers] at h
  · simp [hsilent] at h

/-- **Verification never ends in an internal error.** Without diagnostics there are bounds and
canonical bytes. -/
theorem verification_never_internal (registry : WorkerRegistry) (graph : GraphSpec) :
    ((∃ diagnostics, diagnostics ≠ [] ∧
        ProductionGraphVerifier.verify registry graph = .error (.rejected diagnostics)) ∨
      ∃ verified, ProductionGraphVerifier.verify registry graph = .ok verified) ∧
    (Silent (analyzeGraph graph) {} → Compiles graph) := by
  refine ⟨?_, compiles_of_silent⟩
  by_cases hsilent : (analyzeGraph graph {}).reports = []
  · by_cases hworkers : checkGraphWorkers registry graph = []
    · obtain ⟨bounds, -, hbounds, -⟩ := compiles_of_silent hsilent
      have hverify : verify registry graph = .ok ⟨graph, bounds⟩ := by
        simp [verify, hsilent, hworkers, hbounds]
      exact .inr ⟨_, finalized_of_verify hverify⟩
    · refine .inl ⟨sortDiagnostics ((checkGraphWorkers registry graph).map
        (workerDiagnostic (analyzeGraph graph {}).state)), sortDiagnostics_ne_nil ?_, ?_⟩
      · rwa [ne_eq, List.map_eq_nil_iff]
      · simp [ProductionGraphVerifier.verify, verify, hsilent, hworkers, bind, Except.bind]
  · refine .inl ⟨sortDiagnostics (analyzeGraph graph {}).reports,
      sortDiagnostics_ne_nil hsilent, ?_⟩
    simp [ProductionGraphVerifier.verify, verify, hsilent, bind, Except.bind]

end Zeroshot
