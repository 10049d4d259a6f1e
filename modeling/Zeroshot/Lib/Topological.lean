import Mathlib.Data.Finite.Defs
import Mathlib.Data.List.Nodup
import Mathlib.Logic.Relation
import Mathlib.Order.WellFounded
import Mathlib.Data.Fintype.EquivFin
import Mathlib.Order.Preorder.Finite

set_option autoImplicit false

/-!
# Topological orders by selection

A topological order is built by taking, again and again, a ready node of least rank: one whose
other dependencies were all taken before. `Selects` says that a list of nodes was built this way,
`Stuck` that no node that is left is ready.

* `Selects.unique`: with distinct ranks there is one such list, and it depends on nothing but the
  dependencies and the ranks.
* `Selects.complete_iff`: it has all nodes exactly when no node depends on itself through others.
-/

namespace Zeroshot.Topological

variable {ν : Type} (depends : ν → ν → Prop) (rank : ν → Nat)

/-- Everything else the node depends on is in the list. -/
def Ready (order : List ν) (node : ν) : Prop :=
  ∀ dependency, depends node dependency → dependency ≠ node → dependency ∈ order

/-- A list of nodes, each of which was a ready node of least rank when it was taken. -/
structure Selects (nodes order : List ν) : Prop where
  nodup : order.Nodup
  within : ∀ node ∈ order, node ∈ nodes
  least : ∀ front node rest, order = front ++ node :: rest →
    Ready depends front node ∧
      ∀ other ∈ nodes, other ∉ front → Ready depends front other → rank node ≤ rank other

/-- No node that is left is ready. -/
def Stuck (nodes order : List ν) : Prop :=
  ∀ node ∈ nodes, node ∉ order → ¬Ready depends order node

/-- A node depends on another one, through others or not. -/
def Below (dependency node : ν) : Prop :=
  Relation.TransGen (fun node dependency => depends node dependency ∧ dependency ≠ node) node
    dependency

/-- The dependencies, without those of a node on itself, contain a cycle. -/
def Cyclic : Prop := ∃ node, Below depends node node

variable {depends rank} {nodes order : List ν}

theorem Selects.nil : Selects depends rank nodes [] where
  nodup := List.nodup_nil
  within _ h := by cases h
  least front node rest h := by
    have hlength := congrArg List.length h
    rw [List.length_append, List.length_cons, List.length_nil] at hlength
    omega

theorem Selects.snoc (h : Selects depends rank nodes order) {next : ν} (hnext : next ∈ nodes)
    (hfresh : next ∉ order) (hready : Ready depends order next)
    (hleast : ∀ other ∈ nodes, other ∉ order → Ready depends order other →
      rank next ≤ rank other) : Selects depends rank nodes (order ++ [next]) where
  nodup := by
    refine List.nodup_append.mpr
      ⟨h.nodup, List.nodup_singleton next, fun node hnode last hlast => ?_⟩
    rintro rfl
    rw [List.mem_singleton.mp hlast] at hnode
    exact hfresh hnode
  within node hnode := by
    rcases List.mem_append.mp hnode with hold | hlast
    · exact h.within node hold
    · rw [List.mem_singleton.mp hlast]
      exact hnext
  least front node rest hsplit := by
    rcases List.eq_nil_or_concat rest with rfl | ⟨rest, last, rfl⟩
    · obtain ⟨rfl, hlast⟩ := List.append_inj' hsplit rfl
      cases hlast
      exact ⟨hready, hleast⟩
    · rw [List.concat_eq_append, ← List.cons_append, ← List.append_assoc] at hsplit
      obtain ⟨hfront, -⟩ := List.append_inj' hsplit rfl
      exact h.least front node rest hfront

theorem Selects.fresh (h : Selects depends rank nodes order) {front rest : List ν} {node : ν}
    (hsplit : order = front ++ node :: rest) : node ∉ front := fun hin =>
  (List.nodup_append.mp (hsplit ▸ h.nodup)).2.2 node hin node List.mem_cons_self rfl

theorem Selects.mem_nodes (h : Selects depends rank nodes order) {front rest : List ν} {node : ν}
    (hsplit : order = front ++ node :: rest) : node ∈ nodes := by
  refine h.within node ?_
  rw [hsplit]
  exact List.mem_append_right _ List.mem_cons_self

theorem Selects.after (h : Selects depends rank nodes order) {front rest : List ν} {node : ν}
    (hsplit : order = front ++ node :: rest) {dependency : ν} (hdepends : depends node dependency)
    (hother : dependency ≠ node) : dependency ∈ front :=
  (h.least front node rest hsplit).1 dependency hdepends hother

/-! ## Uniqueness -/

theorem Selects.next_eq {first second : List ν} {front rest rest' : List ν} {node node' : ν}
    (hrank : ∀ a ∈ nodes, ∀ b ∈ nodes, rank a = rank b → a = b)
    (h : Selects depends rank nodes first) (h' : Selects depends rank nodes second)
    (hsplit : first = front ++ node :: rest) (hsplit' : second = front ++ node' :: rest') :
    node = node' := by
  obtain ⟨hready, hleast⟩ := h.least front node rest hsplit
  obtain ⟨hready', hleast'⟩ := h'.least front node' rest' hsplit'
  have hle := hleast node' (h'.mem_nodes hsplit') (h'.fresh hsplit') hready'
  have hge := hleast' node (h.mem_nodes hsplit) (h.fresh hsplit) hready
  exact hrank node (h.mem_nodes hsplit) node' (h'.mem_nodes hsplit') (Nat.le_antisymm hle hge)

/-- **The order is unique**: two selected lists that are stuck are the same. -/
theorem Selects.unique (hrank : ∀ a ∈ nodes, ∀ b ∈ nodes, rank a = rank b → a = b)
    {first second : List ν} (h : Selects depends rank nodes first)
    (hstuck : Stuck depends nodes first) (h' : Selects depends rank nodes second)
    (hstuck' : Stuck depends nodes second) : first = second := by
  have hrest : ∀ rest rest' front : List ν, first = front ++ rest → second = front ++ rest' →
      rest = rest' := by
    intro rest
    induction rest with
    | nil =>
      intro rest' front hsplit hsplit'
      cases rest' with
      | nil => rfl
      | cons node rest' =>
        -- the second list goes on where the first is stuck
        rw [List.append_nil] at hsplit
        subst hsplit
        exact absurd (h'.least first node rest' hsplit').1
          (hstuck node (h'.mem_nodes hsplit') (h'.fresh hsplit'))
    | cons node rest ih =>
      intro rest' front hsplit hsplit'
      cases rest' with
      | nil =>
        rw [List.append_nil] at hsplit'
        subst hsplit'
        exact absurd (h.least second node rest hsplit).1
          (hstuck' node (h.mem_nodes hsplit) (h.fresh hsplit))
      | cons node' rest' =>
        have hnode := h.next_eq hrank h' hsplit hsplit'
        subst hnode
        have hsame := ih rest' (front ++ [node]) (by rw [hsplit]; simp) (by rw [hsplit']; simp)
        rw [hsame]
  exact hrest first second [] rfl rfl

/-! ## Cycles -/

/-- Nodes that all wait for another one of them contain a cycle. -/
theorem cyclic_of_waiting {left : Set ν} (hfinite : left.Finite) (hne : left.Nonempty)
    (hwaits : ∀ node ∈ left, ∃ dependency ∈ left, depends node dependency ∧ dependency ≠ node) :
    Cyclic depends := by
  by_contra hacyclic
  have htrans : IsTrans left fun dependency node => Below depends dependency.1 node.1 :=
    ⟨fun _ _ _ hab hbc => hbc.trans hab⟩
  have hirrefl : Std.Irrefl fun dependency node : left => Below depends dependency.1 node.1 :=
    ⟨fun node hnode => hacyclic ⟨node.1, hnode⟩⟩
  have hsubtype : Finite left := hfinite
  have hwell : WellFounded fun dependency node : left => Below depends dependency.1 node.1 :=
    Finite.wellFounded_of_trans_of_irrefl _
  obtain ⟨first, hfirst⟩ := hne
  -- a node below which there is none waits for another one all the same
  obtain ⟨least, -, hleast⟩ := hwell.has_min Set.univ ⟨⟨first, hfirst⟩, trivial⟩
  obtain ⟨dependency, hin, hedge⟩ := hwaits least.1 least.2
  exact hleast ⟨dependency, hin⟩ trivial (Relation.TransGen.single hedge)

theorem Selects.mem_front (h : Selects depends rank nodes order) {front rest : List ν} {node : ν}
    (hsplit : order = front ++ node :: rest) {last : ν}
    (hpath : Below depends last node) : last ∈ front := by
  induction hpath with
  | single hedge => exact h.after hsplit hedge.1 hedge.2
  | @tail middle last _ hedge ih =>
    obtain ⟨before, behind, hfront⟩ := List.append_of_mem ih
    have hsplit' : order = before ++ middle :: (behind ++ node :: rest) := by
      rw [hsplit, hfront, List.append_assoc, List.cons_append]
    rw [hfront]
    exact List.mem_append_left _ (h.after hsplit' hedge.1 hedge.2)

/-- **All nodes are ordered** exactly when there is no cycle. -/
theorem Selects.complete_iff (h : Selects depends rank nodes order)
    (hstuck : Stuck depends nodes order) (hknown : ∀ node dependency, depends node dependency →
      dependency ∈ nodes) : (∀ node ∈ nodes, node ∈ order) ↔ ¬Cyclic depends := by
  constructor
  · rintro hall ⟨node, hcycle⟩
    have hmem : node ∈ nodes := by
      obtain ⟨_, -, hedge⟩ := Relation.TransGen.tail'_iff.mp hcycle
      exact hknown _ node hedge.1
    obtain ⟨front, rest, hsplit⟩ := List.append_of_mem (hall node hmem)
    have hfront := h.mem_front hsplit hcycle
    exact h.fresh hsplit hfront
  · intro hacyclic
    by_contra hsome
    push Not at hsome
    obtain ⟨missing, hmissing, hout⟩ := hsome
    have hfinite : {node | node ∈ nodes ∧ node ∉ order}.Finite :=
      (List.finite_toSet nodes).subset fun node hnode => hnode.1
    refine hacyclic (cyclic_of_waiting hfinite ⟨missing, hmissing, hout⟩ fun node hnode => ?_)
    have hwaiting := hstuck node hnode.1 hnode.2
    unfold Ready at hwaiting
    push Not at hwaiting
    obtain ⟨dependency, hdepends, hother, hnot⟩ := hwaiting
    exact ⟨dependency, ⟨hknown node dependency hdepends, hnot⟩, hdepends, hother⟩

/-! ## Renaming -/

section Renaming

variable {μ : Type} {f : ν → μ} {depends' : μ → μ → Prop} {rank' : μ → Nat} {nodes' : List μ}

variable (f depends depends' nodes nodes') in
/-- The nodes under other names, with the same dependencies. -/
structure Renamed : Prop where
  injective : ∀ a ∈ nodes, ∀ b ∈ nodes, f a = f b → a = b
  covers : ∀ node', node' ∈ nodes' ↔ ∃ node ∈ nodes, f node = node'
  same : ∀ a ∈ nodes, ∀ b ∈ nodes, depends' (f a) (f b) ↔ depends a b
  known : ∀ node dependency, depends node dependency → dependency ∈ nodes
  known' : ∀ node dependency, depends' node dependency → dependency ∈ nodes'

theorem Renamed.ready_iff (h : Renamed depends nodes f depends' nodes') {front : List ν}
    (hfront : ∀ node ∈ front, node ∈ nodes) {node : ν} (hnode : node ∈ nodes) :
    Ready depends' (front.map f) (f node) ↔ Ready depends front node := by
  constructor
  · intro hready dependency hdependency hother
    have hin := h.known node dependency hdependency
    have hmapped := hready (f dependency) ((h.same node hnode dependency hin).mpr hdependency)
      fun hsame => hother (h.injective dependency hin node hnode hsame)
    obtain ⟨found, hfound, hsame⟩ := List.mem_map.mp hmapped
    rwa [← h.injective found (hfront found hfound) dependency hin hsame]
  · intro hready dependency' hdependency hother
    obtain ⟨dependency, hin, rfl⟩ := (h.covers dependency').mp (h.known' _ _ hdependency)
    refine List.mem_map_of_mem
      (hready dependency ((h.same node hnode dependency hin).mp hdependency) ?_)
    rintro rfl
    exact hother rfl

/-- A selected list under other names is selected, when the ranks are the same. -/
theorem Renamed.selects (h : Renamed depends nodes f depends' nodes')
    (hrank : ∀ node ∈ nodes, rank' (f node) = rank node)
    (hselects : Selects depends rank nodes order) :
    Selects depends' rank' nodes' (order.map f) := by
  refine ⟨?_, fun node' hnode' => ?_, fun front' node' rest' hsplit => ?_⟩
  · exact hselects.nodup.map_on fun a ha b hb =>
      h.injective a (hselects.within a ha) b (hselects.within b hb)
  · obtain ⟨node, hnode, rfl⟩ := List.mem_map.mp hnode'
    exact (h.covers _).mpr ⟨node, hselects.within node hnode, rfl⟩
  · obtain ⟨front, tail, rfl, rfl, htail⟩ := List.map_eq_append_iff.mp hsplit
    obtain ⟨node, rest, rfl, rfl, rfl⟩ := List.map_eq_cons_iff.mp htail
    obtain ⟨hfirst, hleast⟩ := hselects.least front node rest rfl
    have hfront : ∀ node ∈ front, node ∈ nodes := fun node hnode =>
      hselects.within node (List.mem_append_left _ hnode)
    have hnode : node ∈ nodes := hselects.mem_nodes rfl
    refine ⟨(h.ready_iff hfront hnode).mpr hfirst, fun other' hother hnew hother' => ?_⟩
    obtain ⟨other, hin, rfl⟩ := (h.covers other').mp hother
    rw [hrank node hnode, hrank other hin]
    exact hleast other hin (fun hold => hnew (List.mem_map_of_mem hold))
      ((h.ready_iff hfront hin).mp hother')

theorem Renamed.stuck (h : Renamed depends nodes f depends' nodes')
    (hwithin : ∀ node ∈ order, node ∈ nodes) (hstuck : Stuck depends nodes order) :
    Stuck depends' nodes' (order.map f) := by
  intro node' hnode' hout hready
  obtain ⟨node, hin, rfl⟩ := (h.covers node').mp hnode'
  exact hstuck node hin (fun hold => hout (List.mem_map_of_mem hold))
    ((h.ready_iff hwithin hin).mp hready)

end Renaming

end Zeroshot.Topological
