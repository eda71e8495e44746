import LiveQuery.Graph
import LiveQuery.Proofs.Graph.Listing
import Mathlib.Algebra.BigOperators.Group.Finset.Basic
import Mathlib.Algebra.BigOperators.Intervals
import Mathlib.Logic.Relation

/-!
# Following edges

The search through a graph keeps the nodes that it has seen and a queue. All edges out of a node
that has been seen lead to such nodes or into the queue, and each edge enters the queue once. So a
search with as many steps as there are edges ends with an empty queue, and has seen all that can be
reached.

**Results.** `Node.mem_reach_iff`: what a search meets. `Graph.isComputedFrom_iff`: a node is computed
from those that a chain of inputs leads to.
-/

namespace LiveQuery

namespace Node

/-- There is an edge out of a node to another one. -/
def Follows (next : NodeId → List NodeId) (i j : NodeId) : Prop :=
  j ∈ next i

/-- The state of a search: what has been met can be reached, and edges are followed or waited for. -/
structure Searching (next : NodeId → List NodeId) (start seen queue : List NodeId) : Prop where
  begun : ∀ k ∈ start, k ∈ seen ∨ k ∈ queue
  closed : ∀ k ∈ seen, ∀ j ∈ next k, j ∈ seen ∨ j ∈ queue
  reached : ∀ k, k ∈ seen ∨ k ∈ queue → ∃ s ∈ start, Relation.ReflTransGen (Follows next) s k

/-- The number of edges out of nodes that have not been seen. -/
def unfollowed (next : NodeId → List NodeId) (size : Nat) (seen : List NodeId) : Nat :=
  ∑ k ∈ Finset.range size with k ∉ seen, (next k).length

variable {next : NodeId → List NodeId} {start seen queue : List NodeId} {k : NodeId}

namespace Searching

theorem begin (next : NodeId → List NodeId) (start : List NodeId) :
    Searching next start [] start where
  begun _ hk := .inr hk
  closed _ hk := absurd hk List.not_mem_nil
  reached k hk := ⟨k, hk.resolve_left List.not_mem_nil, .refl⟩

/-- A node is met again. -/
theorem skip (h : Searching next start seen (k :: queue)) (hk : k ∈ seen) :
    Searching next start seen queue := by
  have hmet : ∀ j, j ∈ seen ∨ j ∈ k :: queue → j ∈ seen ∨ j ∈ queue := by
    rintro j (hj | hj)
    · exact .inl hj
    · rcases List.mem_cons.1 hj with rfl | hj
      · exact .inl hk
      · exact .inr hj
  exact ⟨fun j hj => hmet j (h.begun j hj), fun i hi j hj => hmet j (h.closed i hi j hj),
    fun j hj => h.reached j (hj.imp_right (List.mem_cons_of_mem _))⟩

/-- A new node is met, and its edges are put into the queue. -/
theorem follow (h : Searching next start seen (k :: queue)) :
    Searching next start (k :: seen) (queue ++ next k) := by
  have hmet : ∀ j, j ∈ seen ∨ j ∈ k :: queue → j ∈ k :: seen ∨ j ∈ queue ++ next k := by
    rintro j (hj | hj)
    · exact .inl (List.mem_cons_of_mem _ hj)
    · rcases List.mem_cons.1 hj with rfl | hj
      · exact .inl List.mem_cons_self
      · exact .inr (List.mem_append_left _ hj)
  refine ⟨fun j hj => hmet j (h.begun j hj), fun i hi j hj => ?_, fun j hj => ?_⟩
  · rcases List.mem_cons.1 hi with rfl | hi
    · exact .inr (List.mem_append_right _ hj)
    · exact hmet j (h.closed i hi j hj)
  · rcases hj with hj | hj
    · rcases List.mem_cons.1 hj with rfl | hj
      · exact h.reached _ (.inr List.mem_cons_self)
      · exact h.reached j (.inl hj)
    · rcases List.mem_append.1 hj with hj | hj
      · exact h.reached j (.inr (List.mem_cons_of_mem _ hj))
      · obtain ⟨s, hs, hreach⟩ := h.reached k (.inr List.mem_cons_self)
        exact ⟨s, hs, hreach.tail hj⟩

/-- When the queue is empty, all that can be reached has been seen. -/
theorem mem_seen_iff (h : Searching next start seen []) :
    k ∈ seen ↔ ∃ s ∈ start, Relation.ReflTransGen (Follows next) s k := by
  refine ⟨fun hk => h.reached k (.inl hk), ?_⟩
  rintro ⟨s, hs, hreach⟩
  induction hreach with
  | refl => exact (h.begun s hs).resolve_right List.not_mem_nil
  | tail _ hj ih => exact (h.closed _ ih _ hj).resolve_right List.not_mem_nil

end Searching

/-- When a node is seen, its edges are followed. -/
theorem unfollowed_cons {size : Nat} (hsize : ∀ k, size ≤ k → next k = []) (hk : k ∉ seen) :
    unfollowed next size (k :: seen) + (next k).length = unfollowed next size seen := by
  have herase : (Finset.range size).filter (· ∉ k :: seen)
      = ((Finset.range size).filter (· ∉ seen)).erase k := by
    ext j
    simp only [Finset.mem_filter, Finset.mem_erase, List.mem_cons, not_or]
    exact and_left_comm
  unfold unfollowed
  rw [herase]
  by_cases hlt : k < size
  · exact Finset.sum_erase_add _ _ (Finset.mem_filter.2 ⟨Finset.mem_range.2 hlt, hk⟩)
  · rw [Finset.erase_eq_of_notMem fun hmem => hlt (Finset.mem_range.1 (Finset.mem_filter.1 hmem).1),
      hsize k (Nat.le_of_not_lt hlt)]
    rfl

/-- A search ends with an empty queue when it has a step for each edge. -/
theorem Searching.run {size : Nat} (hsize : ∀ k, size ≤ k → next k = []) {n : Nat}
    (h : Searching next start seen queue) (hn : queue.length + unfollowed next size seen ≤ n) :
    Searching next start (reach next n seen queue) [] := by
  induction n generalizing seen queue with
  | zero =>
      have hqueue : queue = [] := List.length_eq_zero_iff.1 (by omega)
      exact hqueue ▸ h
  | succ n ih =>
      cases queue with
      | nil => exact h
      | cons k queue =>
          rw [List.length_cons] at hn
          unfold reach
          split
          next hk => exact ih (h.skip (List.contains_iff_mem.1 hk)) (by omega)
          next hk =>
            have hedges := unfollowed_cons hsize (mt List.contains_iff_mem.2 hk)
            exact ih h.follow (by rw [List.length_append]; omega)

theorem mem_reach_iff {size : Nat} (hsize : ∀ k, size ≤ k → next k = []) {n : Nat}
    (hn : start.length + unfollowed next size [] ≤ n) :
    k ∈ reach next n [] start ↔ ∃ s ∈ start, Relation.ReflTransGen (Follows next) s k :=
  ((Searching.begin next start).run hsize hn).mem_seen_iff

/-- The edges of all nodes, counted one by one. -/
theorem foldl_edges (nodes : List Node) (edges : Node → List NodeId) :
    nodes.foldl (fun n node => n + (edges node).length) 0
      = unfollowed (fun k => (nodes[k]?.map edges).getD []) nodes.length [] := by
  have hfold : ∀ n, nodes.foldl (fun n node => n + (edges node).length) n
      = n + ∑ k ∈ Finset.range nodes.length, ((nodes[k]?.map edges).getD []).length := by
    induction nodes with
    | nil => exact fun n => rfl
    | cons node rest ih =>
        intro n
        rw [List.foldl_cons, ih, List.length_cons, Finset.sum_range_succ']
        simp only [List.getElem?_cons_succ, List.getElem?_cons_zero, Option.map_some,
          Option.getD_some]
        omega
  rw [hfold, Nat.zero_add]
  simp [unfollowed]

end Node

namespace Graph

/-- A node is an input of another one. -/
def Feeds (g : Graph) (i k : NodeId) : Prop :=
  i ∈ Node.inputsIn g.nodes k

theorem dependsOn_node (g : Graph) (k : NodeId) :
    (g.node k).dependsOn = Node.inputsIn g.nodes k := by
  unfold node Node.inputsIn
  rw [List.getD_eq_getElem?_getD]
  cases g.nodes[k]? <;> rfl

/-- A node is computed from those that a chain of inputs leads to. -/
theorem isComputedFrom_iff (g : Graph) (k input : NodeId) :
    g.isComputedFrom k input = true ↔ Relation.TransGen g.Feeds input k := by
  have hreach : input ∈ Node.reachDown g.nodes (g.node k).dependsOn ↔
      ∃ i ∈ Node.inputsIn g.nodes k,
        Relation.ReflTransGen (Node.Follows (Node.inputsIn g.nodes)) i input := by
    unfold Node.reachDown
    rw [g.dependsOn_node, Node.foldl_edges]
    exact Node.mem_reach_iff (fun _ => Node.inputsIn_of_length_le) (Nat.le_refl _)
  unfold isComputedFrom
  rw [List.contains_iff_mem, hreach, ← Relation.transGen_swap]
  exact (Relation.TransGen.head'_iff (r := Function.swap g.Feeds)).symm

end Graph

end LiveQuery
