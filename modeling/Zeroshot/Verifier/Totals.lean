import Zeroshot.Verifier.Accepted
import Zeroshot.Verifier.Frames

set_option autoImplicit false

/-!
# Bounds of silent analyses

An analysis that reports nothing has bounds: the reference order takes at least one node and at most
all of them, the fold has a value within its ceilings, and every loop of the graph counts at least
one entry. So `build_bounds` meets the limits of every constructor it uses
(`buildBounds_of_silent`).
-/

namespace Zeroshot

open Reporting

/-! ## What indexing adds -/

/-- The names of the loops of a tree, in authored order. -/
def GraphNode.loopNames (node : GraphNode) : List NodeName :=
  (node.descendants.filter fun node => node matches .loop _ _ _ _ _).map GraphNode.name

/-- The loop names a node adds to those of its children. -/
def GraphNode.ownLoops : GraphNode → List NodeName
  | .loop group _ _ _ _ => [group.name]
  | _ => []

theorem GraphNode.loopNames_eq (node : GraphNode) :
    node.loopNames = node.ownLoops ++ node.children.flatMap loopNames := by
  have hchildren : ∀ nodes : List GraphNode,
      ((nodes.flatMap descendants).filter fun node => node matches .loop _ _ _ _ _).map name =
        nodes.flatMap loopNames := by
    intro nodes
    induction nodes with
    | nil => rfl
    | cons node nodes ih =>
      rw [List.flatMap_cons, List.filter_append, List.map_append, ih, List.flatMap_cons]
      rfl
  rw [loopNames, descendants_eq, ← hchildren]
  cases node <;> rfl

theorem GraphNode.loopNames_length_le (node : GraphNode) :
    node.loopNames.length ≤ node.names.length := by
  rw [loopNames, names, List.length_map, List.length_map]
  exact List.length_filter_le _ _

/-- The step appends the names and the loops, and indexes at most that many nodes. -/
structure Appends {α : Type} (x : Analysis α) (names loops : List NodeName) : Prop where
  authored : ∀ s, (x s).state.authored = s.authored ++ names
  loops : ∀ s, (x s).state.loops = s.loops ++ loops
  nodes : ∀ s, (x s).state.nodes.length ≤ s.nodes.length + names.length

namespace Appends

variable {α β : Type}

theorem of_indexed {x : Analysis α} (h : ∀ s, (x s).state.indexed = s.indexed) :
    Appends x [] [] := by
  refine ⟨fun s => ?_, fun s => ?_, fun s => ?_⟩
  · rw [List.append_nil]
    exact congrArg (fun part => part.2.1) (h s)
  · rw [List.append_nil]
    exact congrArg (fun part => part.2.2) (h s)
  · exact (congrArg (fun part => part.1.length) (h s)).le

theorem bind {x : Analysis α} {f : α → Analysis β} {names names' loops loops' : List NodeName}
    (hx : Appends x names loops) (hf : ∀ a, Appends (f a) names' loops') :
    Appends (x >>= f) (names ++ names') (loops ++ loops') := by
  refine ⟨fun s => ?_, fun s => ?_, fun s => ?_⟩
  · rw [bind_state, (hf _).authored, hx.authored, List.append_assoc]
  · rw [bind_state, (hf _).loops, hx.loops, List.append_assoc]
  · rw [bind_state, List.length_append]
    have hfirst := hx.nodes s
    have hsecond := (hf (x s).value).nodes (x s).state
    omega

theorem congr {x : Analysis α} {names names' loops loops' : List NodeName}
    (h : Appends x names loops) (hnames : names = names') (hloops : loops = loops') :
    Appends x names' loops' := hnames ▸ hloops ▸ h

end Appends

theorem emitIf_appends (condition : Bool) (code : GraphDiagnosticCode) (message : String)
    (path : DiagnosticPath) (relatedNodes : List NodeName) :
    Appends (emitIf condition code message path relatedNodes) [] [] :=
  .of_indexed (emitIf_keeps _ _ _ _ _)

theorem countGuard_appends (root : NodeName) (guard : Guard) (path : DiagnosticPath) :
    Appends (countGuard root guard path) [] [] := by
  refine Appends.bind (.of_indexed fun s => ?_) fun _ => emitIf_appends _ _ _ _ _
  exact foldl_addDependencies_indexed ControlSelector.name (fun _ => []) _ _

theorem indexExecutable_appends (name : NodeName) (attempts : PositiveInteger)
    (path : DiagnosticPath) (bindings : List WriteBinding) :
    Appends (indexExecutable name attempts path bindings) [] [] := by
  refine Appends.bind (emitIf_appends _ _ _ _ _) fun _ => .of_indexed fun s => ?_
  exact foldl_addDependencies_indexed (fun _ => name) (fun node => [node]) _ _

theorem length_insert_le {κ α : Type} [Ord κ] (key : κ) (value : α) (map : OrdMap κ α) :
    (OrdMap.insert key value map).length ≤ map.length + 1 := by
  induction map with
  | nil => exact Nat.le_refl _
  | cons entry map ih =>
    rw [OrdMap.insert]
    split <;> simp only [List.length_cons] <;> omega

theorem indexIdentity_appends (node : GraphNode) (path : DiagnosticPath) :
    Appends (indexIdentity node path) [node.name] [] := by
  have hread : ∀ s : Analyzer,
      (Reporting.read s : Reported Analyzer GraphDiagnostic Analyzer).value = s := fun _ => rfl
  constructor
  · intro s
    rw [indexIdentity, bind_state, bind_state, hread]
    cases OrdMap.get? s.nodes node.name <;> rfl
  · intro s
    rw [indexIdentity, bind_state, bind_state, hread]
    cases OrdMap.get? s.nodes node.name <;> simp <;> rfl
  · intro s
    rw [indexIdentity, bind_state, bind_state, hread]
    cases OrdMap.get? s.nodes node.name with
    | none => exact length_insert_le _ _ _
    | some previous => exact Nat.le_succ _

/-- **Indexing appends the names and the loops of the tree.** -/
theorem indexNode_appends (root : NodeName) (node : GraphNode) :
    ∀ path depth, Appends (indexNode root node path depth) node.names node.loopNames := by
  have hnodes : ∀ (field : String) (nodes : List GraphNode),
      (∀ n ∈ nodes, ∀ path depth, Appends (indexNode root n path depth) n.names n.loopNames) →
      ∀ path depth index, Appends (indexNodes root field nodes path depth index)
        (nodes.flatMap GraphNode.names) (nodes.flatMap GraphNode.loopNames) := by
    intro field nodes
    induction nodes with
    | nil =>
      intro _ path depth index
      exact .of_indexed fun _ => rfl
    | cons n nodes ih =>
      intro hall path depth index
      rw [List.forall_mem_cons] at hall
      rw [indexNodes, List.flatMap_cons, List.flatMap_cons]
      exact (hall.1 _ _).bind fun _ => ih hall.2 path depth (index + 1)
  have hbranches : ∀ branches : List (Guard × GraphNode),
      (∀ b ∈ branches, ∀ path depth,
        Appends (indexNode root b.2 path depth) b.2.names b.2.loopNames) →
      ∀ path depth index, Appends (indexBranches root branches path depth index)
        ((branches.map Prod.snd).flatMap GraphNode.names)
        ((branches.map Prod.snd).flatMap GraphNode.loopNames) := by
    intro branches
    induction branches with
    | nil =>
      intro _ path depth index
      exact .of_indexed fun _ => rfl
    | cons b branches ih =>
      intro hall path depth index
      rw [List.forall_mem_cons] at hall
      rw [indexBranches, List.map_cons, List.flatMap_cons, List.flatMap_cons]
      exact ((countGuard_appends _ _ _).bind fun _ => (hall.1 _ _).bind fun _ =>
        ih hall.2 path depth (index + 1)).congr rfl rfl
  induction node using GraphNode.induct with
  | step node | verifier node =>
    intro path depth
    rw [indexNode, GraphNode.names_eq, GraphNode.loopNames_eq]
    exact (indexIdentity_appends _ _).bind fun _ =>
      ((emitIf_appends _ _ _ _ _).bind fun _ => indexExecutable_appends _ _ _ _).congr rfl rfl
  | seq group children ih =>
    intro path depth
    rw [indexNode, GraphNode.names_eq, GraphNode.loopNames_eq]
    exact (indexIdentity_appends _ _).bind fun _ =>
      ((emitIf_appends _ _ _ _ _).bind fun _ => hnodes _ _ ih _ _ _).congr rfl rfl
  | choice group branches otherwise ih ihotherwise =>
    intro path depth
    rw [indexNode, GraphNode.names_eq, GraphNode.loopNames_eq]
    have hotherwise : Appends (indexOtherwise root otherwise path depth)
        (otherwise.toList.flatMap GraphNode.names)
        (otherwise.toList.flatMap GraphNode.loopNames) := by
      cases otherwise with
      | none => exact .of_indexed fun _ => rfl
      | some node =>
        rw [indexOtherwise]
        exact (ihotherwise node rfl _ _).congr (by simp) (by simp)
    refine (indexIdentity_appends _ _).bind fun _ =>
      ((emitIf_appends _ _ _ _ _).bind fun _ =>
        (hbranches _ ih _ _ _).bind fun _ => hotherwise).congr ?_ ?_
    · exact List.flatMap_append.symm
    · exact List.flatMap_append.symm
  | par group branches join ih =>
    intro path depth
    rw [indexNode, GraphNode.names_eq, GraphNode.loopNames_eq]
    refine (indexIdentity_appends _ _).bind fun _ =>
      ((emitIf_appends _ _ _ _ _).bind fun _ => ?_).congr rfl rfl
    cases join with
    | first guard =>
      exact ((countGuard_appends _ _ _).bind fun _ => hnodes _ _ ih _ _ _).congr rfl rfl
    | all | any | quorum => exact hnodes _ _ ih _ _ _
  | loop group body untilGuard maxIterations maxIterationsInput ih =>
    intro path depth
    rw [indexNode, GraphNode.names_eq, GraphNode.loopNames_eq]
    have hupdate : Appends (update fun analyzer : Analyzer =>
        { analyzer with loops := analyzer.loops ++ [group.name] } : Analysis Unit) []
        [group.name] :=
      ⟨fun _ => (List.append_nil _).symm, fun _ => rfl, fun _ => Nat.le_refl _⟩
    have hbody : Appends (indexNode root body (namedChildPath path "body" body.name) (depth + 1))
        ([body].flatMap GraphNode.names) ([body].flatMap GraphNode.loopNames) :=
      (ih _ _).congr (by simp) (by simp)
    refine (indexIdentity_appends _ _).bind fun _ =>
      ((emitIf_appends _ _ _ _ _).bind fun _ => hupdate.bind fun _ => ?_).congr rfl rfl
    cases untilGuard with
    | none => exact hbody
    | some guard => exact ((countGuard_appends _ _ _).bind fun _ => hbody).congr rfl rfl
  | map group body overItems maxItems ih =>
    intro path depth
    rw [indexNode, GraphNode.names_eq, GraphNode.loopNames_eq]
    have hbody : Appends (indexNode root body (namedChildPath path "body" body.name) (depth + 1))
        ([body].flatMap GraphNode.names) ([body].flatMap GraphNode.loopNames) :=
      (ih _ _).congr (by simp) (by simp)
    exact (indexIdentity_appends _ _).bind fun _ =>
      ((emitIf_appends _ _ _ _ _).bind fun _ => hbody).congr rfl rfl
  | succeed node | fail node =>
    intro path depth
    rw [indexNode, GraphNode.names_eq, GraphNode.loopNames_eq]
    exact (indexIdentity_appends _ _).bind fun _ =>
      ((emitIf_appends _ _ _ _ _).bind fun _ => .of_indexed fun _ => rfl).congr rfl rfl

/-! ## The reference order -/

theorem length_le_orderReferences (analyzer : Analyzer) (fuel : Nat)
    (remaining order : List NodeName) (s : Analyzer) :
    order.length ≤ (orderReferences analyzer fuel remaining order s).value.length ∧
      (orderReferences analyzer fuel remaining order s).value.length ≤ order.length + fuel := by
  induction fuel generalizing remaining order with
  | zero => exact ⟨Nat.le_refl _, Nat.le_refl _⟩
  | succ fuel ih =>
    rw [orderReferences]
    split
    · exact ⟨Nat.le_refl _, Nat.le_add_right _ _⟩
    · cases nextReferenceNode analyzer remaining order with
      | none => exact ⟨Nat.le_refl _, Nat.le_add_right _ _⟩
      | some next =>
        have hnext := ih (remaining.filter fun node => node != next) (order ++ [next])
        rw [List.length_append, List.length_singleton] at hnext
        dsimp only
        exact ⟨by omega, by omega⟩

/-- A silent order of at least one node takes one. -/
theorem orderReferences_pos {analyzer s : Analyzer} {remaining order : List NodeName}
    (hremaining : remaining ≠ [])
    (hsilent : Silent (orderReferences analyzer remaining.length remaining order) s) :
    0 < (orderReferences analyzer remaining.length remaining order s).value.length := by
  cases remaining with
  | nil => exact absurd rfl hremaining
  | cons node remaining =>
    rw [List.length_cons, orderReferences, if_neg (by simp)] at hsilent ⊢
    cases hnext : nextReferenceNode analyzer (node :: remaining) order with
    | none =>
      -- nodes that wait for each other are reported
      rw [hnext] at hsilent
      exact absurd (silent_bind.mp hsilent).1 (not_silent_report _ _)
    | some next =>
      have hlength := (length_le_orderReferences analyzer remaining.length
        ((node :: remaining).filter fun node => node != next) (order ++ [next]) s).1
      rw [List.length_append, List.length_singleton] at hlength
      dsimp only
      omega

/-! ## The fold -/

/-- The fold is within the ceilings, and counts the loops of the node. -/
structure Folded (node : GraphNode) (fold : Fold) : Prop where
  executions : fold.executions ≤ maxNodeExecutions
  concurrency : fold.concurrency ≤ maxPeakConcurrency
  loopEntries : fold.loopEntries ≤ maxLoopEntries
  entered : node.loopNames ≠ [] → 0 < fold.loopEntries

theorem checkFoldLimits_silent {path : DiagnosticPath} {fold : Fold} {s : Analyzer}
    (h : Silent (checkFoldLimits path fold) s) :
    (checkFoldLimits path fold s).value = some fold ∧ fold.executions ≤ maxNodeExecutions ∧
      fold.concurrency ≤ maxPeakConcurrency ∧ fold.loopEntries ≤ maxLoopEntries := by
  have hreports : ∀ {condition : Prop} [Decidable condition] {field message : String}
      {x : Analysis (Option Fold)}, Silent (if condition then do
        ceiling path field message
        pure none
      else x) s → ¬ condition ∧ Silent x s := by
    intro condition _ field message x hsilent
    by_cases hcondition : condition
    · rw [if_pos hcondition] at hsilent
      exact absurd (silent_bind.mp hsilent).1 (not_silent_report _ _)
    · rw [if_neg hcondition] at hsilent
      exact ⟨hcondition, hsilent⟩
  unfold checkFoldLimits at h ⊢
  obtain ⟨hexecutions, h⟩ := hreports h
  obtain ⟨hconcurrency, h⟩ := hreports h
  obtain ⟨hentries, -⟩ := hreports h
  rw [if_neg hexecutions, if_neg hconcurrency, if_neg hentries]
  exact ⟨rfl, by omega, by omega, by omega⟩

theorem checkedSum_silent {limit : FoldLimit} {total : Nat} {values : List Nat} {s : Analyzer}
    (h : Silent (checkedSum limit total values) s) :
    (checkedSum limit total values s).value = some (total + values.sum) := by
  induction values generalizing total with
  | nil => rfl
  | cons value values ih =>
    rw [checkedSum] at h ⊢
    by_cases hle : total + value ≤ limit.ceiling
    · rw [if_pos hle] at h ⊢
      rw [ih h, List.sum_cons, Nat.add_assoc]
    · rw [if_neg hle] at h
      exact absurd (silent_bind.mp h).1 (not_silent_report _ _)

theorem checkedProduct_silent {limit : FoldLimit} {left right : Nat} {s : Analyzer}
    (h : Silent (checkedProduct limit left right) s) :
    (checkedProduct limit left right s).value = some (left * right) := by
  rw [checkedProduct] at h ⊢
  by_cases hle : left * right ≤ limit.ceiling
  · rw [if_pos hle]
    rfl
  · rw [if_neg hle] at h
    exact absurd (silent_bind.mp h).1 (not_silent_report _ _)

theorem le_sum {values : List Nat} {value : Nat} (h : value ∈ values) : value ≤ values.sum := by
  induction values with
  | nil => cases h
  | cons first values ih =>
    rw [List.sum_cons]
    rcases List.mem_cons.mp h with rfl | h
    · omega
    · have := ih h
      omega

theorem le_largest {values : List Nat} {value : Nat} (h : value ∈ values) :
    value ≤ largest values := by
  have hstart : ∀ (values : List Nat) (start : Nat), start ≤ values.foldl max start := by
    intro values
    induction values with
    | nil => exact fun _ => Nat.le_refl _
    | cons first values ih => exact fun start => (Nat.le_max_left _ _).trans (ih _)
  have hgeneral : ∀ (values : List Nat) (start : Nat), value ∈ values →
      value ≤ values.foldl max start := by
    intro values
    induction values with
    | nil => exact fun _ hmem => (by cases hmem)
    | cons first values ih =>
      intro start hmem
      rcases List.mem_cons.mp hmem with rfl | hmem
      · exact (Nat.le_max_right _ _).trans (hstart values _)
      · exact ih _ hmem
  exact hgeneral values 0 h

/-- Some child has a loop, and its fold counts it. -/
theorem exists_entered {nodes : List GraphNode} {folds : List Fold}
    (hfolds : List.Forall₂ Folded nodes folds) (hloops : nodes.flatMap GraphNode.loopNames ≠ []) :
    ∃ fold ∈ folds, 0 < fold.loopEntries := by
  induction hfolds with
  | nil => exact absurd rfl hloops
  | @cons node fold nodes folds hfold _ ih =>
    by_cases hnode : node.loopNames = []
    · rw [List.flatMap_cons, hnode, List.nil_append] at hloops
      obtain ⟨other, hmem, hpositive⟩ := ih hloops
      exact ⟨other, List.mem_cons_of_mem _ hmem, hpositive⟩
    · exact ⟨fold, List.mem_cons_self, hfold.entered hnode⟩

theorem sum_entered {nodes : List GraphNode} {folds : List Fold}
    (hfolds : List.Forall₂ Folded nodes folds) (hloops : nodes.flatMap GraphNode.loopNames ≠ []) :
    0 < (folds.map Fold.loopEntries).sum := by
  obtain ⟨fold, hmem, hpositive⟩ := exists_entered hfolds hloops
  have := le_sum (List.mem_map_of_mem (f := Fold.loopEntries) hmem)
  omega

/-- The fold of a group, once the folds of its children are known. -/
theorem checkFold_silent {path : DiagnosticPath} {x : Analysis (Option Fold)} {s : Analyzer}
    {fold : Fold} (hvalue : (x s).value = some fold)
    (h : Silent (x >>= checkFold path) s) :
    ((x >>= checkFold path) s).value = some fold ∧ fold.executions ≤ maxNodeExecutions ∧
      fold.concurrency ≤ maxPeakConcurrency ∧ fold.loopEntries ≤ maxLoopEntries := by
  obtain ⟨-, hcheck⟩ := silent_bind.mp h
  rw [bind_value]
  rw [hvalue] at hcheck ⊢
  exact checkFoldLimits_silent hcheck

theorem foldSeq_silent {path : DiagnosticPath} {children : List Fold} {s : Analyzer}
    (h : Silent (foldSeq path children) s) :
    ∃ fold, (foldSeq path children s).value = some fold ∧
      fold.loopEntries = (children.map Fold.loopEntries).sum := by
  rw [foldSeq] at h ⊢
  obtain ⟨hfirst, hrest⟩ := silent_bind.mp h
  rw [bind_value]
  rw [checkedSum_silent hfirst] at hrest ⊢
  obtain ⟨hentries, -⟩ := silent_bind.mp hrest
  refine ⟨⟨0 + (children.map Fold.executions).sum, largest (children.map Fold.concurrency),
    0 + (children.map Fold.loopEntries).sum⟩, ?_, Nat.zero_add _⟩
  dsimp only
  rw [bind_value, checkedSum_silent hentries]
  rfl

theorem foldPar_silent {path : DiagnosticPath} {children : List Fold} {s : Analyzer}
    (h : Silent (foldPar path children) s) :
    ∃ fold, (foldPar path children s).value = some fold ∧
      fold.loopEntries = (children.map Fold.loopEntries).sum := by
  rw [foldPar] at h ⊢
  obtain ⟨hfirst, hrest⟩ := silent_bind.mp h
  rw [bind_value]
  rw [checkedSum_silent hfirst] at hrest ⊢
  obtain ⟨hsecond, hrest⟩ := silent_bind.mp hrest
  dsimp only
  rw [bind_value]
  rw [checkedSum_silent hsecond] at hrest ⊢
  obtain ⟨hentries, -⟩ := silent_bind.mp hrest
  refine ⟨⟨0 + (children.map Fold.executions).sum, 0 + (children.map Fold.concurrency).sum,
    0 + (children.map Fold.loopEntries).sum⟩, ?_, Nat.zero_add _⟩
  dsimp only
  rw [bind_value, checkedSum_silent hentries]
  rfl

theorem foldMap_silent {path : DiagnosticPath} {maxItems : Nat} {body : Fold} {s : Analyzer}
    (h : Silent (foldMap path maxItems body) s) :
    ∃ fold, (foldMap path maxItems body s).value = some fold ∧
      fold.loopEntries = maxItems * body.loopEntries := by
  rw [foldMap] at h ⊢
  obtain ⟨hfirst, hrest⟩ := silent_bind.mp h
  rw [bind_value]
  rw [checkedProduct_silent hfirst] at hrest ⊢
  obtain ⟨hsecond, hrest⟩ := silent_bind.mp hrest
  dsimp only
  rw [bind_value]
  rw [checkedProduct_silent hsecond] at hrest ⊢
  obtain ⟨hentries, -⟩ := silent_bind.mp hrest
  refine ⟨⟨maxItems * body.executions, maxItems * body.concurrency,
    maxItems * body.loopEntries⟩, ?_, rfl⟩
  dsimp only
  rw [bind_value, checkedProduct_silent hentries]
  rfl

theorem foldLoop_silent {path : DiagnosticPath} {maxIterations : Nat} {body : Fold} {s : Analyzer}
    (h : Silent (foldLoop path maxIterations body) s) :
    ∃ fold, (foldLoop path maxIterations body s).value = some fold ∧
      fold.loopEntries = maxIterations * (body.loopEntries + 1) := by
  rw [foldLoop] at h ⊢
  by_cases hoverflow : u64Limit ≤ body.loopEntries + 1
  · rw [if_pos hoverflow] at h
    exact absurd (silent_bind.mp h).1 (not_silent_report _ _)
  rw [if_neg hoverflow] at h ⊢
  obtain ⟨hfirst, hrest⟩ := silent_bind.mp h
  rw [bind_value]
  rw [checkedProduct_silent hfirst] at hrest ⊢
  obtain ⟨hentries, -⟩ := silent_bind.mp hrest
  refine ⟨⟨maxIterations * body.executions, body.concurrency,
    maxIterations * (body.loopEntries + 1)⟩, ?_, rfl⟩
  dsimp only
  rw [bind_value, checkedProduct_silent hentries]
  rfl

theorem foldNodes_silent {nodes : List GraphNode}
    (hnodes : ∀ node ∈ nodes, ∀ s, Silent (foldNode node) s →
      ∃ fold, (foldNode node s).value = some fold ∧ Folded node fold)
    {s : Analyzer} (h : Silent (foldNodes nodes) s) :
    List.Forall₂ Folded nodes (foldNodes nodes s).value := by
  induction nodes generalizing s with
  | nil => exact .nil
  | cons node nodes ih =>
    rw [List.forall_mem_cons] at hnodes
    rw [foldNodes] at h ⊢
    obtain ⟨hfirst, hrest⟩ := silent_bind.mp h
    obtain ⟨hrest, -⟩ := silent_bind.mp hrest
    obtain ⟨fold, hvalue, hfold⟩ := hnodes.1 s hfirst
    have hlater := ih hnodes.2 hrest
    rw [bind_value, bind_value, pure_value, hvalue]
    exact .cons hfold hlater

theorem foldBranches_silent {branches : List (Guard × GraphNode)}
    (hbranches : ∀ branch ∈ branches, ∀ s, Silent (foldNode branch.2) s →
      ∃ fold, (foldNode branch.2 s).value = some fold ∧ Folded branch.2 fold)
    {s : Analyzer} (h : Silent (foldBranches branches) s) :
    List.Forall₂ Folded (branches.map Prod.snd) (foldBranches branches s).value := by
  induction branches generalizing s with
  | nil => exact .nil
  | cons branch branches ih =>
    rw [List.forall_mem_cons] at hbranches
    rw [foldBranches] at h ⊢
    obtain ⟨hfirst, hrest⟩ := silent_bind.mp h
    obtain ⟨hrest, -⟩ := silent_bind.mp hrest
    obtain ⟨fold, hvalue, hfold⟩ := hbranches.1 s hfirst
    have hlater := ih hbranches.2 hrest
    rw [bind_value, bind_value, pure_value, hvalue]
    exact .cons hfold hlater

theorem foldOtherwise_silent {otherwise : Option GraphNode}
    (hotherwise : ∀ node ∈ otherwise, ∀ s, Silent (foldNode node) s →
      ∃ fold, (foldNode node s).value = some fold ∧ Folded node fold)
    {s : Analyzer} (h : Silent (foldOtherwise otherwise) s) :
    ∃ folds, (foldOtherwise otherwise s).value = some folds ∧
      List.Forall₂ Folded otherwise.toList folds := by
  cases otherwise with
  | none => exact ⟨[], rfl, .nil⟩
  | some node =>
    rw [foldOtherwise] at h ⊢
    obtain ⟨hfirst, -⟩ := silent_bind.mp h
    obtain ⟨fold, hvalue, hfold⟩ := hotherwise node rfl s hfirst
    refine ⟨[fold], ?_, .cons hfold .nil⟩
    rw [bind_value, pure_value, hvalue]
    rfl

/-- **A silent fold has a value within the ceilings.** -/
theorem foldNode_silent (node : GraphNode) : ∀ s, Silent (foldNode node) s →
    ∃ fold, (foldNode node s).value = some fold ∧ Folded node fold := by
  have hleaf : ∀ (node : GraphNode) (name : NodeName) (fold : Fold), node.loopNames = [] →
      ∀ s, Silent (do let analyzer ← read; checkFoldLimits (analyzer.nodePath name) fold) s →
        ∃ found, ((do let analyzer ← read; checkFoldLimits (analyzer.nodePath name) fold :
          Analysis (Option Fold)) s).value = some found ∧ Folded node found := by
    intro node name fold hloops s h
    obtain ⟨-, hcheck⟩ := silent_bind.mp h
    obtain ⟨hvalue, hexecutions, hconcurrency, hentries⟩ := checkFoldLimits_silent hcheck
    exact ⟨fold, hvalue, hexecutions, hconcurrency, hentries, fun hne => absurd hloops hne⟩
  induction node using GraphNode.induct with
  | step node => exact hleaf (.step node) _ _ rfl
  | verifier node => exact hleaf (.verifier node) _ _ rfl
  | succeed node => exact hleaf (.succeed node) _ _ rfl
  | fail node => exact hleaf (.fail node) _ _ rfl
  | seq group children ih =>
    intro s h
    rw [foldNode] at h ⊢
    obtain ⟨-, h⟩ := silent_bind.mp h
    obtain ⟨hchildren, hrest⟩ := silent_bind.mp h
    have hfolds := foldNodes_silent ih hchildren
    obtain ⟨fold, hvalue, hentered⟩ := foldSeq_silent (silent_bind.mp hrest).1
    obtain ⟨hchecked, hexecutions, hconcurrency, hentries⟩ := checkFold_silent hvalue hrest
    refine ⟨fold, hchecked, hexecutions, hconcurrency, hentries, fun hloops => ?_⟩
    rw [hentered]
    rw [GraphNode.loopNames_eq] at hloops
    exact sum_entered hfolds hloops
  | par group branches join ih =>
    intro s h
    rw [foldNode] at h ⊢
    obtain ⟨-, h⟩ := silent_bind.mp h
    obtain ⟨hchildren, hrest⟩ := silent_bind.mp h
    have hfolds := foldNodes_silent ih hchildren
    obtain ⟨fold, hvalue, hentered⟩ := foldPar_silent (silent_bind.mp hrest).1
    obtain ⟨hchecked, hexecutions, hconcurrency, hentries⟩ := checkFold_silent hvalue hrest
    refine ⟨fold, hchecked, hexecutions, hconcurrency, hentries, fun hloops => ?_⟩
    rw [hentered]
    rw [GraphNode.loopNames_eq] at hloops
    exact sum_entered hfolds hloops
  | choice group branches otherwise ih ihotherwise =>
    intro s h
    rw [foldNode] at h ⊢
    obtain ⟨-, h⟩ := silent_bind.mp h
    obtain ⟨hbranches, hrest⟩ := silent_bind.mp h
    obtain ⟨hotherwise, hrest⟩ := silent_bind.mp hrest
    have hfolds := foldBranches_silent ih hbranches
    obtain ⟨fallback, hfallback, hfolded⟩ := foldOtherwise_silent ihotherwise hotherwise
    rw [bind_value, bind_value, bind_value]
    rw [hfallback] at hrest ⊢
    obtain ⟨hvalue, hexecutions, hconcurrency, hentries⟩ := checkFoldLimits_silent hrest
    refine ⟨_, hvalue, hexecutions, hconcurrency, hentries, fun hloops => ?_⟩
    rw [GraphNode.loopNames_eq] at hloops
    obtain ⟨fold, hmem, hpositive⟩ := exists_entered
      (List.rel_append hfolds hfolded) hloops
    have := le_largest (List.mem_map_of_mem (f := Fold.loopEntries) hmem)
    exact Nat.lt_of_lt_of_le hpositive this
  | loop group body untilGuard maxIterations maxIterationsInput ih =>
    intro s h
    rw [foldNode] at h ⊢
    obtain ⟨-, h⟩ := silent_bind.mp h
    obtain ⟨hbody, hrest⟩ := silent_bind.mp h
    obtain ⟨inner, hinner, -⟩ := ih _ hbody
    rw [bind_value, bind_value]
    rw [hinner] at hrest ⊢
    obtain ⟨fold, hvalue, hentered⟩ := foldLoop_silent (silent_bind.mp hrest).1
    obtain ⟨hchecked, hexecutions, hconcurrency, hentries⟩ := checkFold_silent hvalue hrest
    refine ⟨fold, hchecked, hexecutions, hconcurrency, hentries, fun _ => ?_⟩
    rw [hentered]
    exact Nat.mul_pos maxIterations.positive (Nat.succ_pos _)
  | map group body overItems maxItems ih =>
    intro s h
    rw [foldNode] at h ⊢
    obtain ⟨-, h⟩ := silent_bind.mp h
    obtain ⟨hbody, hrest⟩ := silent_bind.mp h
    obtain ⟨inner, hinner, hfolded⟩ := ih _ hbody
    rw [bind_value, bind_value]
    rw [hinner] at hrest ⊢
    obtain ⟨fold, hvalue, hentered⟩ := foldMap_silent (silent_bind.mp hrest).1
    obtain ⟨hchecked, hexecutions, hconcurrency, hentries⟩ := checkFold_silent hvalue hrest
    refine ⟨fold, hchecked, hexecutions, hconcurrency, hentries, fun hloops => ?_⟩
    rw [hentered]
    rw [GraphNode.loopNames_eq] at hloops
    refine Nat.mul_pos maxItems.positive (hfolded.entered ?_)
    simpa [GraphNode.ownLoops, GraphNode.children] using hloops

/-! ## The bounds -/

/-- What the index of a graph within the limits holds. -/
structure WithinLimits (root : GraphNode) (analyzer : Analyzer) : Prop where
  loops : analyzer.loops = root.loopNames
  nodes : analyzer.nodes.length ≤ root.names.length
  nonEmpty : analyzer.nodes ≠ []
  names : root.names.length ≤ maxGraphNodes

theorem WithinLimits.of_indexed {root : GraphNode} {analyzer next : Analyzer}
    (h : WithinLimits root analyzer) (hindexed : next.indexed = analyzer.indexed) :
    WithinLimits root next := by
  have hnodes : next.nodes = analyzer.nodes := congrArg (fun part => part.1) hindexed
  have hloops : next.loops = analyzer.loops := congrArg (fun part => part.2.2) hindexed
  exact ⟨hloops.trans h.loops, hnodes ▸ h.nodes, hnodes ▸ h.nonEmpty, h.names⟩

/-- The state after a silent index within the limits. -/
theorem withinLimits_of_silent {root : GraphNode} {path : DiagnosticPath} {depth : Nat}
    (hindex : Silent (indexNode root.name root path depth) {})
    (hlimits : Silent validateGlobalLimits (indexNode root.name root path depth {}).state) :
    WithinLimits root (indexNode root.name root path depth {}).state := by
  have happends := indexNode_appends root.name root path depth
  obtain ⟨-, -, hknown⟩ := indexNode_indexes root.name root path depth {} hindex
  obtain ⟨-, hlimits⟩ := silent_bind.mp hlimits
  obtain ⟨hnodes, -⟩ := silent_bind.mp hlimits
  have hceiling := silent_reportIf.mp hnodes
  have hauthored := happends.authored {}
  have hlength : (indexNode root.name root path depth {}).state.authored.length =
      root.names.length := congrArg List.length hauthored
  refine ⟨(happends.loops {}).trans (List.nil_append _), ?_, fun hempty => ?_, ?_⟩
  · exact (happends.nodes {}).trans (Nat.zero_add _).le
  · have hroot := (hknown root.name).mpr (.inr (GraphNode.name_mem_names root))
    rw [hempty] at hroot
    cases hroot
  · rw [← hlength]
    exact Nat.le_of_not_lt (of_decide_eq_false hceiling)

theorem PositiveInteger.new_isSome {value : Nat} (hpositive : 0 < value)
    (hsafe : value ≤ maxSafeGeneration) : ∃ integer, PositiveInteger.new value = some integer :=
  ⟨_, dif_pos ⟨hpositive, hsafe⟩⟩

theorem nonEmptyVec_of {α : Type} {values : List α} (hne : 0 < values.length)
    (hle : values.length ≤ maxCollectionItems) : nonEmptyVec values = some values := by
  have hlimits : collectionLimits values = true := by
    cases values with
    | nil => cases hne
    | cons value values => simpa [collectionLimits] using hle
  rw [nonEmptyVec, if_pos hlimits]

/-- The ranking of the loops: node names are field names. -/
theorem ranking_eq_some (loops : List NodeName) :
    ∃ ranking : List FieldPath, ranking.length = loops.length ∧ (loops.mapM fun name =>
      (fieldName name.asStr).bind fun name => FieldPath.new [name]) = some ranking := by
  induction loops with
  | nil => exact ⟨[], rfl, rfl⟩
  | cons name loops ih =>
    obtain ⟨ranking, hlength, hranking⟩ := ih
    have hname : fieldName name.asStr = some ⟨name.asStr, name.valid⟩ := dif_pos name.valid
    obtain ⟨first, hfirst⟩ : ∃ first, FieldPath.new [(⟨name.asStr, name.valid⟩ : FieldName)] =
        some first := ⟨_, dif_pos ⟨List.cons_ne_nil _ _, (by decide : 1 ≤ maxPathSegments)⟩⟩
    refine ⟨first :: ranking, by rw [List.length_cons, hlength, List.length_cons], ?_⟩
    rw [List.mapM_cons, hname, Option.bind_some, hfirst, hranking]
    rfl

/-- The bounds of a graph within the limits. -/
theorem buildBounds_of_limits {root : GraphNode} {analyzer : Analyzer} {fold : Fold}
    {order : List NodeName} (hlimits : WithinLimits root analyzer) (hfold : Folded root fold)
    (hpositive : 0 < order.length) (hle : order.length ≤ analyzer.nodes.length) :
    ∃ bounds, buildBounds analyzer fold order = some bounds := by
  have hceilings : maxNodeExecutions ≤ maxSafeGeneration ∧ maxPeakConcurrency ≤ maxSafeGeneration ∧
      maxLoopEntries ≤ maxSafeGeneration ∧ maxGraphNodes ≤ maxCollectionItems ∧
      1 ≤ maxSafeGeneration := by decide
  have hexecutions := hfold.executions
  have hconcurrency := hfold.concurrency
  have hentries := hfold.loopEntries
  have hnames := hlimits.names
  have hnodes := hlimits.nodes
  obtain ⟨executions, hexecutions⟩ := PositiveInteger.new_isSome
    (by omega : 0 < max fold.executions 1) (by omega)
  obtain ⟨concurrency, hconcurrency⟩ := PositiveInteger.new_isSome
    (by omega : 0 < max fold.concurrency 1) (by omega)
  have htermination : ∃ witness, terminationWitness analyzer fold order = some witness := by
    unfold terminationWitness
    by_cases hempty : analyzer.loops.isEmpty = true
    · rw [if_pos hempty, nonEmptyVec_of hpositive (by omega)]
      exact ⟨_, rfl⟩
    · rw [if_neg hempty]
      have hloops : analyzer.loops ≠ [] := fun hnil => hempty (by rw [hnil]; rfl)
      have hlooplength := root.loopNames_length_le
      rw [hlimits.loops] at hloops
      obtain ⟨ranking, hlength, hranking⟩ := ranking_eq_some analyzer.loops
      have hranked : 0 < ranking.length := by
        rw [hlength, hlimits.loops]
        exact List.length_pos_of_ne_nil hloops
      have hbounded : ranking.length ≤ maxCollectionItems := by
        rw [hlength, hlimits.loops]
        omega
      obtain ⟨iterations, hiterations⟩ := PositiveInteger.new_isSome (hfold.entered hloops)
        (by omega)
      rw [hranking]
      refine ⟨.bounded ranking iterations, ?_⟩
      change (nonEmptyVec ranking).bind _ = _
      rw [nonEmptyVec_of hranked hbounded, Option.bind_some, hiterations]
      rfl
  obtain ⟨witness, hwitness⟩ := htermination
  unfold buildBounds
  rw [hexecutions, hconcurrency, hwitness]
  exact ⟨_, rfl⟩

/-- **A silent analysis has bounds.** -/
theorem buildBounds_of_silent {graph : GraphSpec} (h : Silent (analyzeGraph graph) {}) :
    ∃ bounds, ((analyzeGraph graph {}).value.2.bind fun fold =>
      buildBounds (analyzeGraph graph {}).state fold (analyzeGraph graph {}).value.1) =
        some bounds := by
  have hprofile : (validateProfile graph {}).state = {} := emitIf_state _ _ _ _ _ _
  rw [analyzeGraph] at h ⊢
  obtain ⟨-, h⟩ := silent_bind.mp h
  simp only [bind_state, bind_value, pure_value, pure_state, hprofile] at h ⊢
  obtain ⟨hindex, h⟩ := silent_bind.mp h
  obtain ⟨hlimits, h⟩ := silent_bind.mp h
  obtain ⟨-, h⟩ := silent_bind.mp h
  obtain ⟨-, h⟩ := silent_bind.mp h
  obtain ⟨horder, h⟩ := silent_bind.mp h
  obtain ⟨hfold, -⟩ := silent_bind.mp h
  have hindexed := withinLimits_of_silent hindex hlimits
  generalize (indexNode graph.root.name graph.root (rootPath ++ [.node graph.root.name]) 1
    {}).state = s at *
  have hglobal : Keeps validateGlobalLimits := Preserves.read.bind fun _ =>
    (emitIf_keeps _ _ _ _ _).bind fun _ => emitIf_keeps _ _ _ _ _
  have hindexed := hindexed.of_indexed (hglobal s)
  generalize (validateGlobalLimits s).state = s at *
  have hindexed := hindexed.of_indexed (validateNode_keeps graph graph.root [] graph.rootContext s)
  generalize (validateNode graph [] graph.root graph.rootContext s).state = s at *
  have hindexed := hindexed.of_indexed (validateTerminalCoverage_keeps graph.root s)
  generalize (validateTerminalCoverage graph.root s).state = s at *
  obtain ⟨-, horder⟩ := silent_bind.mp horder
  obtain ⟨-, hsilent⟩ := silent_bind.mp horder
  have hknown : OrdMap.keys s.nodes ≠ [] := by
    intro hnil
    exact hindexed.nonEmpty (List.map_eq_nil_iff.mp hnil)
  have hpositive := orderReferences_pos hknown hsilent
  have hbound := (length_le_orderReferences s (OrdMap.keys s.nodes).length (OrdMap.keys s.nodes) []
    (validateReferenceNames s s).state).2
  have hkeys : (OrdMap.keys s.nodes).length = s.nodes.length := List.length_map _
  rw [List.length_nil, Nat.zero_add] at hbound
  have hnodes : (referenceTopologicalOrder s).state.nodes = s.nodes :=
    congrArg (fun part => part.1) (referenceTopologicalOrder_keeps s)
  have hindexed := hindexed.of_indexed (referenceTopologicalOrder_keeps s)
  obtain ⟨fold, hvalue, hfolded⟩ := foldNode_silent graph.root _ hfold
  rw [hvalue, Option.bind_some]
  have hfinal := foldNode_keeps graph.root (referenceTopologicalOrder s).state
  refine buildBounds_of_limits (hindexed.of_indexed hfinal) hfolded hpositive ?_
  have hsame : (foldNode graph.root (referenceTopologicalOrder s).state).state.nodes = s.nodes :=
    (congrArg (fun part => part.1) hfinal).trans hnodes
  rw [hsame]
  exact hbound.trans hkeys.le

end Zeroshot
