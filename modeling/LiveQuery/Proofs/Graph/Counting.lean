import LiveQuery.Proofs.Graph.Acyclic

/-!
# Counting down to the end

The order of nodes is made in as many steps as there are nodes, and no counter falls below zero. The
loop needs neither limit where every edge is noted at both of its ends: as long as it goes on, each
dependent of a listed node still waits for it, once for each edge between them, and it stops because
no node is ready any more. What is never ready has an input that is never ready either, so among
finitely many nodes its inputs lead back to a cycle.

**Results.** `Node.Listing.countsDown`: the loop without limits gives the same order.
`Node.inOrder_exact`: which nodes the order leaves out, and that it comes to an end for all of them.
-/

namespace LiveQuery

namespace Node

variable {nodes : List Node}

/-- Counts down one input of each dependent, and gives those that wait no longer; none if a
dependent waits for nothing. -/
def countDown? (waiting : List Nat) : List NodeId → Option (List Nat × List NodeId)
  | [] => some (waiting, [])
  | k :: rest =>
      if waiting.getD k 0 = 0 then none
      else
        let waiting := waiting.modify k (· - 1)
        (countDown? waiting rest).map fun (after, ready) =>
          (after, if waiting[k]? = some 0 then k :: ready else ready)

/-- From counters and ready nodes, the loop lists nodes and ends when none is ready, without a limit
to its steps: it lists nodes that there are, and counts down what is positive. -/
inductive CountsDown (nodes : List Node) : List Nat → List NodeId → List NodeId → Prop
  | finished (waiting : List Nat) : CountsDown nodes waiting [] []
  | listed {waiting after : List Nat} {k : NodeId} {ready freed order : List NodeId}
      (there : k < nodes.length)
      (counted : countDown? waiting (dependentsIn nodes k) = some (after, freed))
      (others : CountsDown nodes after (ready ++ freed) order) :
      CountsDown nodes waiting (k :: ready) (k :: order)

theorem mirrored_iff : Mirrored nodes ↔
    (∀ node ∈ nodes, ∀ k ∈ node.dependsOn ++ node.dependedUpon, k < nodes.length) ∧
      ∀ i < nodes.length, ∀ j < nodes.length,
        (dependentsIn nodes i).count j = (inputsIn nodes j).count i := by
  constructor
  · refine fun h => ⟨fun node hnode k hk => ?_, fun i _ j _ => h i j⟩
    obtain ⟨j, hj, rfl⟩ := List.mem_iff_getElem.1 hnode
    rcases List.mem_append.1 hk with hk | hk
    · have hinput : k ∈ inputsIn nodes j := by simpa [inputsIn, hj] using hk
      exact (h.lt_of_mem_inputsIn hinput).1
    · have hdependent : k ∈ dependentsIn nodes j := by simpa [dependentsIn, hj] using hk
      exact (h.lt_of_mem_inputsIn (h.mem_iff.1 hdependent)).2
  · rintro ⟨hbounded, hcount⟩ i j
    have hlt {k n : NodeId} {edges : Node → List NodeId}
        (hedges : ∀ node, edges node ⊆ node.dependsOn ++ node.dependedUpon)
        (hn : n ∈ (nodes[k]?.map edges).getD []) : n < nodes.length := by
      cases hnode : nodes[k]? with
      | none =>
          rw [hnode] at hn
          cases hn
      | some node =>
          rw [hnode] at hn
          exact hbounded node (List.mem_of_getElem? hnode) n (hedges node hn)
    have hinput : nodes.length ≤ i → (inputsIn nodes j).count i = 0 := fun hi =>
      List.count_eq_zero.2 fun hmem =>
        Nat.not_lt.2 hi (hlt (fun _ => List.subset_append_left ..) hmem)
    have hdependent : nodes.length ≤ j → (dependentsIn nodes i).count j = 0 := fun hj =>
      List.count_eq_zero.2 fun hmem =>
        Nat.not_lt.2 hj (hlt (fun _ => List.subset_append_right ..) hmem)
    rcases Nat.lt_or_ge i nodes.length with hi | hi
    · rcases Nat.lt_or_ge j nodes.length with hj | hj
      · exact hcount i hi j hj
      · rw [hdependent hj, inputsIn_of_length_le hj, List.count_nil]
    · rw [hinput hi, dependentsIn_of_length_le hi, List.count_nil]

instance : Decidable (Mirrored nodes) :=
  decidable_of_iff _ mirrored_iff.symm

/-! ## The loop without limits -/

/-- Where the dependents wait often enough, counting down is as without a look at the counters. -/
theorem countDown?_eq {waiting : List Nat} {ds : List NodeId}
    (henough : ∀ j ∈ ds, ∃ w, waiting[j]? = some w ∧ ds.count j ≤ w) :
    countDown? waiting ds = some (release waiting ds) := by
  induction ds generalizing waiting with
  | nil => rfl
  | cons k rest ih =>
      obtain ⟨w, hw, hle⟩ := henough k List.mem_cons_self
      rw [List.count_cons_self] at hle
      have hpositive : waiting.getD k 0 ≠ 0 := by
        rw [List.getD_eq_getElem?_getD, hw, Option.getD_some]
        omega
      have hrest : ∀ j ∈ rest, ∃ w, (waiting.modify k (· - 1))[j]? = some w ∧
          rest.count j ≤ w := by
        intro j hj
        obtain ⟨v, hv, hcount⟩ := henough j (List.mem_cons_of_mem _ hj)
        rw [List.getElem?_modify, hv]
        by_cases hk : k = j
        · subst hk
          rw [List.count_cons_self] at hcount
          exact ⟨v - 1, by simp, by omega⟩
        · rw [List.count_cons_of_ne hk] at hcount
          exact ⟨v, by simp [hk], hcount⟩
      simp only [countDown?, if_neg hpositive, ih hrest, release, Option.map_some]
      split <;> rfl

namespace Listing

variable {done ready : List NodeId} {waiting : List Nat}

/-- With a step for each node that is not done, the loop comes to its end. -/
theorem countsDown (hmirror : Mirrored nodes) (n : Nat) (h : Listing nodes done ready waiting)
    (hn : nodes.length ≤ done.length + n) :
    CountsDown nodes waiting ready (listReady nodes n waiting ready) := by
  induction n generalizing done ready waiting with
  | zero =>
      obtain rfl := h.ready_eq_nil hn
      exact .finished waiting
  | succ n ih =>
      cases ready with
      | nil => exact .finished waiting
      | cons k ready =>
          refine .listed (h.bounded k (by simp)) (countDown?_eq fun j hj => ?_)
            (ih (h.step hmirror) (by rw [List.length_cons]; omega))
          have hlt : j < waiting.length := by
            rw [h.length]
            exact (hmirror.lt_of_mem_inputsIn (hmirror.mem_iff.1 hj)).2
          exact ⟨waiting[j], List.getElem?_eq_getElem hlt,
            h.enough hmirror j _ (List.getElem?_eq_getElem hlt)⟩

end Listing

/-- The loop has one outcome. -/
theorem CountsDown.unique {waiting : List Nat} {ready order order' : List NodeId}
    (h : CountsDown nodes waiting ready order) (h' : CountsDown nodes waiting ready order') :
    order = order' := by
  induction h generalizing order' with
  | finished waiting =>
      cases h'
      rfl
  | listed _ counted _ ih =>
      cases h' with
      | listed _ counted' others' =>
          obtain ⟨rfl, rfl⟩ := Prod.mk.inj (Option.some.inj (counted.symm.trans counted'))
          rw [ih others']

/-! ## What is left out -/

/-- In a graph with finitely many edges, the inputs of a node, their inputs and so on come to an end
just if they do not lead back to a cycle. -/
theorem ends_iff (hmirror : Mirrored nodes) (k : NodeId) :
    Ends nodes k ↔ ∀ c, Relation.TransGen (Feeds nodes) c c →
      ¬Relation.ReflTransGen (Feeds nodes) c k := by
  constructor
  · intro hends c hcycle hreach
    have hinputs : Acc (Feeds nodes) c := by
      induction hreach with
      | refl => exact hends
      | tail _ hstep ih => exact ih (hends.inv hstep)
    exact not_transGen_of_acc hinputs hcycle
  · intro hnone
    -- Among the nodes that lead to the given one there is no cycle.
    let above : NodeId → NodeId → Prop := fun i j =>
      Feeds nodes i j ∧ Relation.ReflTransGen (Feeds nodes) j k
    have hacyclic : ∀ c, ¬Relation.TransGen above c c := by
      intro c hcycle
      refine hnone c (Relation.TransGen.mono (fun _ _ h => h.1) _ _ hcycle) ?_
      obtain ⟨_, ⟨hstep, hreach⟩, _⟩ := Relation.TransGen.head'_iff.1 hcycle
      exact .head hstep hreach
    have habove : ∀ i, Acc above i :=
      acc_of_not_transGen (fun i j h => (hmirror.lt_of_mem_inputsIn h.1).1) hacyclic
    have hacc : ∀ i, Relation.ReflTransGen (Feeds nodes) i k → Acc (Feeds nodes) i := by
      intro i
      induction habove i with
      | intro i _ ih =>
          exact fun hreach => Acc.intro i fun j hj => ih j ⟨hj, hreach⟩ (.head hj hreach)
    exact hacc k .refl

/-- The order of the nodes is what the loop gives that lists ready nodes until there are none, with
counters that are positive whenever they are counted down. It lists nodes that there are, none of
them twice, and before each of them all that it depends on. A node is left out just if it depends on
one that depends on itself, or is one; so all are listed just if there is no such node. -/
theorem inOrder_exact (hmirror : Mirrored nodes) :
    (∀ order, CountsDown nodes (nodes.map (·.dependsOn.length))
        ((List.range nodes.length).filter fun k => (inputsIn nodes k).isEmpty) order ↔
      order = inOrder nodes) ∧
    (inOrder nodes).Nodup ∧ (∀ k ∈ inOrder nodes, k < nodes.length) ∧
    (∀ before k after, inOrder nodes = before ++ k :: after →
      ∀ i, Relation.TransGen (Feeds nodes) i k → i ∈ before) ∧
    (∀ k < nodes.length, k ∉ inOrder nodes ↔
      ∃ c, Relation.TransGen (Feeds nodes) c c ∧ Relation.ReflTransGen (Feeds nodes) c k) ∧
    ((inOrder nodes).Perm (List.range nodes.length) ↔
      ∀ c, ¬Relation.TransGen (Feeds nodes) c c) := by
  have hruns : CountsDown nodes _ _ (inOrder nodes) :=
    (Listing.start nodes).countsDown hmirror nodes.length (by simp)
  have hleft : ∀ k < nodes.length, k ∉ inOrder nodes ↔
      ∃ c, Relation.TransGen (Feeds nodes) c c ∧ Relation.ReflTransGen (Feeds nodes) c k := by
    intro k hk
    rw [mem_inOrder_iff hmirror hk, ends_iff hmirror]
    simp only [not_forall, not_not, exists_prop]
  refine ⟨fun order => ⟨fun h => h.unique hruns, fun h => h ▸ hruns⟩, nodup_inOrder hmirror,
    fun k => lt_of_mem_inOrder hmirror, fun before k after h i => mem_before_of_transGen hmirror h,
    hleft, ?_⟩
  rw [List.perm_ext_iff_of_nodup (nodup_inOrder hmirror) List.nodup_range]
  constructor
  · intro hall c hcycle
    obtain ⟨_, -, hlast⟩ := Relation.TransGen.tail'_iff.1 hcycle
    have hc := (hmirror.lt_of_mem_inputsIn hlast).2
    exact (hleft c hc).2 ⟨c, hcycle, .refl⟩ ((hall c).2 (List.mem_range.2 hc))
  · intro hnone k
    rw [List.mem_range]
    refine ⟨lt_of_mem_inOrder hmirror, fun hk => ?_⟩
    by_contra hout
    obtain ⟨c, hcycle, -⟩ := (hleft k hk).1 hout
    exact hnone c hcycle

/-- Of four nodes, the second depends on the first twice; the third and the fourth depend on each
other, and the third on the second too. -/
def tangled : List Node :=
  [⟨.selection 0, [], [1, 1]⟩, ⟨.selection 1, [0, 0], [2]⟩, ⟨.selection 2, [1, 3], [3]⟩,
    ⟨.selection 3, [2], [2]⟩]

/-- The two are left out, and the others are listed without a counter below zero. -/
theorem inOrder_exact_tangled : Mirrored tangled ∧ CountsDown tangled [0, 2, 2, 1] [0] [0, 1] ∧
    ∃ c, Relation.TransGen (Feeds tangled) c c ∧ Relation.ReflTransGen (Feeds tangled) c 3 := by
  have hmirror : Mirrored tangled := by decide
  obtain ⟨hruns, -, -, -, hleft, -⟩ := inOrder_exact hmirror
  exact ⟨hmirror, (hruns [0, 1]).2 (by decide), (hleft 3 (by decide)).1 (by decide)⟩

end Node

end LiveQuery
