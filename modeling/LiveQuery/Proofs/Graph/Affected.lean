import LiveQuery.Proofs.Graph.Acyclic
import LiveQuery.Proofs.Graph.Counting

/-!
# What a change reaches

The nodes to compute anew are found by a search along the edges, and are then taken from the order
of all nodes. The search makes a step for each node that is told to be changed and for each edge at
most, since an edge enters its queue once, when the node that it starts at is seen for the first
time.

**Results.** `Node.explores`: the search without limits meets the same nodes.
`Graph.affected_affectedBy`: what a change reaches, each node once and after its inputs.
-/

namespace LiveQuery

namespace Node

variable {next : NodeId → List NodeId} {seen queue met : List NodeId}

/-- From nodes seen before and a queue, a search without a limit to its steps meets some nodes. -/
inductive Explores (next : NodeId → List NodeId) : List NodeId → List NodeId → List NodeId → Prop
  | finished (seen : List NodeId) : Explores next seen [] seen
  | again {seen queue met : List NodeId} {k : NodeId} (known : k ∈ seen)
      (others : Explores next seen queue met) : Explores next seen (k :: queue) met
  | first {seen queue met : List NodeId} {k : NodeId} (unknown : k ∉ seen)
      (others : Explores next (k :: seen) (queue ++ next k) met) :
      Explores next seen (k :: queue) met

/-- A search with a step for each edge comes to its end. -/
theorem explores {size : Nat} (hsize : ∀ k, size ≤ k → next k = []) {n : Nat}
    (hn : queue.length + unfollowed next size seen ≤ n) :
    Explores next seen queue (reach next n seen queue) := by
  induction n generalizing seen queue with
  | zero =>
      obtain rfl : queue = [] := List.length_eq_zero_iff.1 (by omega)
      exact .finished seen
  | succ n ih =>
      cases queue with
      | nil => exact .finished seen
      | cons k queue =>
          rw [List.length_cons] at hn
          unfold reach
          split
          next hk => exact .again (List.contains_iff_mem.1 hk) (ih (by omega))
          next hk =>
            have hunknown : k ∉ seen := mt List.contains_iff_mem.2 hk
            have hedges := unfollowed_cons hsize hunknown
            exact .first hunknown (ih (by rw [List.length_append]; omega))

/-- A search has one outcome. -/
theorem Explores.unique {met' : List NodeId} (h : Explores next seen queue met)
    (h' : Explores next seen queue met') : met = met' := by
  induction h with
  | finished seen =>
      cases h'
      rfl
  | again known _ ih =>
      cases h' with
      | again _ others => exact ih others
      | first unknown _ => exact absurd known unknown
  | first unknown _ ih =>
      cases h' with
      | again known _ => exact absurd known unknown
      | first _ others => exact ih others

theorem explores_reachUp (nodes : List Node) (start : List NodeId) :
    Explores (dependentsIn nodes) [] start (reachUp nodes start) := by
  unfold reachUp
  rw [foldl_edges]
  exact explores (fun _ => dependentsIn_of_length_le) (Nat.le_refl _)

theorem reachUp_nil (nodes : List Node) : reachUp nodes [] = [] :=
  (explores_reachUp nodes []).unique (.finished [])

/-- The search meets the nodes that some of the given ones lead to. -/
theorem mem_reachUp_iff {nodes : List Node} (hmirror : Mirrored nodes) {start : List NodeId}
    {k : NodeId} : k ∈ reachUp nodes start ↔
      ∃ c ∈ start, Relation.ReflTransGen (Feeds nodes) c k := by
  have hfollows : Follows (dependentsIn nodes) = Feeds nodes := by
    funext i j
    exact propext hmirror.mem_iff
  unfold reachUp
  rw [foldl_edges, ← hfollows]
  exact mem_reach_iff (fun _ => dependentsIn_of_length_le) (Nat.le_refl _)

end Node

namespace Graph

variable {g : Graph}

theorem mem_affectedBy_iff (mirrored : Node.Mirrored g.nodes) {changed : List NodeId} {k : NodeId} :
    k ∈ g.affectedBy changed ↔
      k ∈ g.order ∧ ∃ c ∈ changed, Relation.ReflTransGen g.Feeds c k := by
  unfold affectedBy
  rw [List.mem_filter, List.contains_iff_mem, Node.mem_reachUp_iff mirrored]
  rfl

theorem affectedBy_nil (g : Graph) : g.affectedBy [] = [] := by
  simp [affectedBy, Node.reachUp_nil]

theorem nodup_affectedBy (mirrored : Node.Mirrored g.nodes) (changed : List NodeId) :
    (g.affectedBy changed).Nodup :=
  (Node.nodup_inOrder mirrored).filter _

/-- Of two nodes that a change reaches, one that the other is computed from comes first. -/
theorem inputs_first_affectedBy (mirrored : Node.Mirrored g.nodes) {changed : List NodeId}
    {i k : NodeId} (hi : i ∈ g.affectedBy changed) (hk : k ∈ g.affectedBy changed)
    (hreach : Relation.TransGen g.Feeds i k) : [i, k].Sublist (g.affectedBy changed) := by
  unfold affectedBy at hi hk ⊢
  obtain ⟨hi, hmet⟩ := List.mem_filter.1 hi
  obtain ⟨hk, hmet'⟩ := List.mem_filter.1 hk
  obtain ⟨before, after, horder⟩ := List.append_of_mem hk
  have hbefore : i ∈ before := Node.mem_before_of_transGen mirrored horder hreach
  rw [horder, List.filter_append, List.filter_cons_of_pos hmet']
  exact (List.singleton_sublist.2 (List.mem_filter.2 ⟨hbefore, hmet⟩)).append
    (List.singleton_sublist.2 List.mem_cons_self)

/-- Some nodes are those that a change of others reaches: these and all that is computed from one of
them, each once, in the order of all nodes, and so after all that it is computed from. -/
structure Affected (g : Graph) (changed affected : List NodeId) : Prop where
  nodup : affected.Nodup
  ordered : affected.Sublist g.order
  inputsFirst : ∀ i ∈ affected, ∀ k ∈ affected, Relation.TransGen g.Feeds i k →
    [i, k].Sublist affected
  reached : ∀ k, k ∈ affected ↔ ∃ c ∈ changed, Relation.ReflTransGen g.Feeds c k

theorem affected_affectedBy (mirrored : Node.Mirrored g.nodes)
    (complete : g.order.Perm (List.range g.size)) {changed : List NodeId}
    (known : ∀ c ∈ changed, c < g.size) : g.Affected changed (g.affectedBy changed) where
  nodup := nodup_affectedBy mirrored changed
  ordered := List.filter_sublist
  inputsFirst _ hi _ hk := inputs_first_affectedBy mirrored hi hk
  reached k := by
    rw [mem_affectedBy_iff mirrored, complete.mem_iff, List.mem_range, and_iff_right_iff_imp]
    rintro ⟨c, hc, hreach⟩
    rcases Relation.ReflTransGen.cases_tail hreach with rfl | ⟨i, -, hfeeds⟩
    · exact known k hc
    · exact (mirrored.lt_of_mem_inputsIn hfeeds).2

end Graph

end LiveQuery
