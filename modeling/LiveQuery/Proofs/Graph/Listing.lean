import LiveQuery.Graph.Order
import Mathlib.Data.List.Basic
import Mathlib.Data.List.Count
import Mathlib.Data.List.Nodup
import Mathlib.Logic.Relation

/-!
# Listing nodes when they are ready

When every edge is noted at both of its ends, counting down the inputs that a node still
waits for says exactly when it is ready: when all its inputs are listed.

**Results.** `inputsFirst_inOrder`: each listed node comes after all its inputs, and
`nodup_inOrder`: no node is listed twice. `mem_inOrder_iff`: a node is listed when its
inputs, their inputs and so on come to an end.
-/

namespace LiveQuery

namespace Node

/-- Every edge is noted at both of its ends, as often at one as at the other. -/
def Mirrored (nodes : List Node) : Prop :=
  ∀ i j, (dependentsIn nodes i).count j = (inputsIn nodes j).count i

/-- Each listed node comes after all its inputs, some nodes being done before. -/
def InputsFirst (nodes : List Node) : List NodeId → List NodeId → Prop
  | _, [] => True
  | done, k :: rest =>
      (∀ i ∈ inputsIn nodes k, i ∈ done) ∧ InputsFirst nodes (k :: done) rest

/-! ## Edges -/

theorem inputsIn_of_length_le {nodes : List Node} {k : NodeId} (h : nodes.length ≤ k) :
    inputsIn nodes k = [] := by
  simp [inputsIn, h]

theorem dependentsIn_of_length_le {nodes : List Node} {k : NodeId} (h : nodes.length ≤ k) :
    dependentsIn nodes k = [] := by
  simp [dependentsIn, h]

theorem Mirrored.mem_iff {nodes : List Node} (h : Mirrored nodes) {i j : NodeId} :
    j ∈ dependentsIn nodes i ↔ i ∈ inputsIn nodes j := by
  rw [← List.count_pos_iff, ← List.count_pos_iff, h i j]

theorem Mirrored.lt_of_mem_inputsIn {nodes : List Node} (h : Mirrored nodes) {i j : NodeId}
    (hi : i ∈ inputsIn nodes j) : i < nodes.length ∧ j < nodes.length := by
  constructor
  · by_contra hlen
    have := h.mem_iff.2 hi
    rw [dependentsIn_of_length_le (Nat.le_of_not_lt hlen)] at this
    cases this
  · by_contra hlen
    rw [inputsIn_of_length_le (Nat.le_of_not_lt hlen)] at hi
    cases hi

/-! ## Counting down -/

theorem getElem?_release (waiting : List Nat) (ds : List NodeId) (j : NodeId) :
    (release waiting ds).1[j]? = waiting[j]?.map (· - ds.count j) := by
  induction ds generalizing waiting with
  | nil => cases h : waiting[j]? <;> simp [release, h]
  | cons k rest ih =>
      have hstep : (release waiting (k :: rest)).1
          = (release (waiting.modify k (· - 1)) rest).1 := by
        simp only [release]
        split <;> rfl
      rw [hstep, ih, List.getElem?_modify, List.count_cons]
      by_cases hk : k = j
      · cases h : waiting[j]? <;> simp [hk]
        omega
      · cases h : waiting[j]? <;> simp [hk]

theorem length_release (waiting : List Nat) (ds : List NodeId) :
    (release waiting ds).1.length = waiting.length := by
  induction ds generalizing waiting with
  | nil => rfl
  | cons k rest ih =>
      simp only [release]
      split <;> simp [ih]

/-- A dependent is freed when all that it waited for was counted down, and only once. -/
theorem mem_release {waiting : List Nat} {ds : List NodeId}
    (henough : ∀ j w, waiting[j]? = some w → ds.count j ≤ w) :
    (∀ j, j ∈ (release waiting ds).2 ↔ j ∈ ds ∧ waiting[j]? = some (ds.count j)) ∧
      (release waiting ds).2.Nodup := by
  induction ds generalizing waiting with
  | nil => simp [release]
  | cons k rest ih =>
      have hmodify : ∀ j, (waiting.modify k (· - 1))[j]?
          = if k = j then waiting[j]?.map (· - 1) else waiting[j]? := fun j => by
        rw [List.getElem?_modify]
        split <;> simp
      have henough' : ∀ j w, (waiting.modify k (· - 1))[j]? = some w → rest.count j ≤ w := by
        intro j w hw
        rw [hmodify] at hw
        by_cases hk : k = j
        · subst hk
          rw [if_pos rfl] at hw
          obtain ⟨v, hv, rfl⟩ := Option.map_eq_some_iff.1 hw
          have := henough k v hv
          rw [List.count_cons_self] at this
          omega
        · rw [if_neg hk] at hw
          have := henough j w hw
          rwa [List.count_cons_of_ne hk] at this
      obtain ⟨hmem, hnodup⟩ := ih henough'
      have hself := hmem k
      rw [hmodify, if_pos rfl] at hself
      constructor
      · intro j
        by_cases hk : k = j
        · subst hk
          simp only [release, hmodify, if_pos]
          cases hw : waiting[k]? with
          | none => simp [hself, hw]
          | some w =>
              have hle := henough k w hw
              rw [List.count_cons_self] at hle ⊢
              rw [hw, Option.map_some] at hself
              by_cases hzero : w - 1 = 0
              · simp only [Option.map_some, hzero, if_true, List.mem_cons_self, true_and, true_iff]
                congr 1
                omega
              · simp only [Option.map_some, Option.some.injEq, hzero, if_false, hself,
                  List.mem_cons_self, true_and]
                rw [← List.count_pos_iff]
                omega
        · have hj := hmem j
          rw [hmodify, if_neg hk] at hj
          have hcons : j ∈ (release waiting (k :: rest)).2
              ↔ j ∈ (release (waiting.modify k (· - 1)) rest).2 := by
            simp only [release]
            split
            · simp [Ne.symm hk]
            · rfl
          rw [hcons, hj, List.count_cons_of_ne hk]
          simp [Ne.symm hk]
      · simp only [release]
        split
        next hzero =>
          refine List.nodup_cons.2 ⟨fun hin => ?_, hnodup⟩
          obtain ⟨hrest, hcount⟩ := (hmem k).1 hin
          rw [hzero] at hcount
          have := List.count_pos_iff.2 hrest
          have := Option.some.inj hcount
          omega
        · exact hnodup

/-! ## The state of the listing -/

/-- Some nodes are done, some are ready; the others wait for the inputs that are not done. -/
structure Listing (nodes : List Node) (done ready : List NodeId) (waiting : List Nat) : Prop where
  nodup : (done ++ ready).Nodup
  length : waiting.length = nodes.length
  waiting : ∀ j < nodes.length,
    waiting[j]? = some ((inputsIn nodes j).countP fun i => decide (i ∉ done))
  bounded : ∀ j ∈ done ++ ready, j < nodes.length
  ready : ∀ j < nodes.length, j ∈ done ++ ready ↔ ∀ i ∈ inputsIn nodes j, i ∈ done

namespace Listing

variable {nodes : List Node}

theorem start (nodes : List Node) :
    Listing nodes [] ((List.range nodes.length).filter fun k => (inputsIn nodes k).isEmpty)
      (nodes.map (·.dependsOn.length)) where
  nodup := List.nodup_range.filter _
  length := List.length_map _
  waiting j hj := by
    simp [inputsIn, hj]
  bounded j hj := by
    simpa using (List.mem_filter.1 hj).1
  ready j hj := by
    simp [hj, List.eq_nil_iff_forall_not_mem]

variable {done ready : List NodeId} {waiting : List Nat} {k : NodeId}

theorem countP_cons_done {l : List NodeId} (hk : k ∉ done) :
    l.countP (fun i => decide (i ∉ done))
      = l.countP (fun i => decide (i ∉ k :: done)) + l.count k := by
  induction l with
  | nil => rfl
  | cons i rest ih =>
      rw [List.countP_cons, List.countP_cons, List.count_cons, ih]
      by_cases hik : i = k
      · subst hik
        simp [hk]
        omega
      · by_cases hid : i ∈ done
        · simp [hik, hid]
        · simp [hik, hid]
          omega

theorem not_done (h : Listing nodes done (k :: ready) waiting) : k ∉ done :=
  fun hdone => (List.disjoint_of_nodup_append h.nodup) hdone List.mem_cons_self

/-- What a node waits for is the next ready node, as often as that is its input, and the rest. -/
theorem countP_not_done (hmirror : Mirrored nodes) (h : Listing nodes done (k :: ready) waiting)
    (j : NodeId) :
    (inputsIn nodes j).countP (fun i => decide (i ∉ done))
      = (inputsIn nodes j).countP (fun i => decide (i ∉ k :: done))
        + (dependentsIn nodes k).count j := by
  rw [countP_cons_done h.not_done, hmirror k j]

/-- A dependent of the next ready node waits for it as often as it is its dependent. -/
theorem enough (hmirror : Mirrored nodes) (h : Listing nodes done (k :: ready) waiting) :
    ∀ j w, waiting[j]? = some w → (dependentsIn nodes k).count j ≤ w := by
  intro j w hw
  have hj : j < nodes.length := by
    rw [← h.length]
    exact (List.getElem?_eq_some_iff.1 hw).1
  rw [h.waiting j hj, Option.some.injEq, h.countP_not_done hmirror] at hw
  omega

/-- Listing a ready node frees exactly those that waited for it alone. -/
theorem step (hmirror : Mirrored nodes) (h : Listing nodes done (k :: ready) waiting) :
    Listing nodes (k :: done) (ready ++ (release waiting (dependentsIn nodes k)).2)
      (release waiting (dependentsIn nodes k)).1 := by
  have hk := h.not_done
  have hcount := h.countP_not_done hmirror
  obtain ⟨hfreed, hfreedNodup⟩ := mem_release (h.enough hmirror)
  -- What is freed waited for the listed node, and for nothing else.
  have hfreed' : ∀ j, j ∈ (release waiting (dependentsIn nodes k)).2
      ↔ k ∈ inputsIn nodes j ∧ ∀ i ∈ inputsIn nodes j, i ∈ k :: done := by
    intro j
    rw [hfreed, hmirror.mem_iff]
    refine and_congr_right fun hin => ?_
    rw [h.waiting j (hmirror.lt_of_mem_inputsIn hin).2, Option.some.injEq, hcount]
    simp only [Nat.add_eq_right, List.countP_eq_zero, decide_eq_true_eq, not_not]
  have hnew : ∀ j ∈ (release waiting (dependentsIn nodes k)).2, j ∉ done ++ k :: ready := by
    intro j hj hin
    obtain ⟨hkj, _⟩ := (hfreed' j).1 hj
    exact hk ((h.ready j (hmirror.lt_of_mem_inputsIn hkj).2).1 hin k hkj)
  have hperm : (k :: done ++ (ready ++ (release waiting (dependentsIn nodes k)).2)).Perm
      (done ++ k :: ready ++ (release waiting (dependentsIn nodes k)).2) := by
    rw [← List.append_assoc]
    exact List.Perm.append_right _ List.perm_middle.symm
  refine ⟨?_, ?_, ?_, ?_, ?_⟩
  · refine hperm.nodup_iff.2 (List.nodup_append'.2 ⟨h.nodup, hfreedNodup, ?_⟩)
    exact fun j hold hj => hnew j hj hold
  · rw [length_release, h.length]
  · intro j hj
    rw [getElem?_release, h.waiting j hj, Option.map_some, hcount]
    simp
  · intro j hj
    rcases List.mem_append.1 (hperm.mem_iff.1 hj) with hold | hfree
    · exact h.bounded j hold
    · exact (hmirror.lt_of_mem_inputsIn ((hfreed' j).1 hfree).1).2
  · intro j hj
    rw [hperm.mem_iff, List.mem_append, h.ready j hj, hfreed' j]
    constructor
    · rintro (hold | ⟨_, hall⟩)
      · exact fun i hi => List.mem_cons_of_mem _ (hold i hi)
      · exact hall
    · intro hall
      by_cases hin : k ∈ inputsIn nodes j
      · exact .inr ⟨hin, hall⟩
      · refine .inl fun i hi => (List.mem_cons.1 (hall i hi)).resolve_left fun heq => ?_
        exact hin (heq ▸ hi)

theorem inputs_done (h : Listing nodes done (k :: ready) waiting) :
    ∀ i ∈ inputsIn nodes k, i ∈ done :=
  (h.ready k (h.bounded k (by simp))).1 (by simp)

/-- When as many nodes are done as there are, none is ready. -/
theorem ready_eq_nil (h : Listing nodes done ready waiting) (hdone : nodes.length ≤ done.length) :
    ready = [] := by
  have hsub : done ++ ready ⊆ List.range nodes.length := fun j hj =>
    List.mem_range.2 (h.bounded j hj)
  have hlen := (List.subperm_of_subset h.nodup hsub).length_le
  rw [List.length_append, List.length_range] at hlen
  exact List.length_eq_zero_iff.1 (by omega)

theorem inputsFirst_listReady (hmirror : Mirrored nodes) (n : Nat)
    (h : Listing nodes done ready waiting) :
    InputsFirst nodes done (listReady nodes n waiting ready) := by
  induction n generalizing done ready waiting with
  | zero => trivial
  | succ n ih =>
      cases ready with
      | nil => trivial
      | cons k ready => exact ⟨h.inputs_done, ih (h.step hmirror)⟩

theorem nodup_listReady (hmirror : Mirrored nodes) (n : Nat)
    (h : Listing nodes done ready waiting) :
    (done ++ listReady nodes n waiting ready).Nodup := by
  induction n generalizing done ready waiting with
  | zero => simpa [listReady] using (List.nodup_append.1 h.nodup).1
  | succ n ih =>
      cases ready with
      | nil => simpa [listReady] using h.nodup
      | cons k ready => exact List.perm_middle.nodup_iff.2 (ih (h.step hmirror))

theorem lt_of_mem_listReady (hmirror : Mirrored nodes) (n : Nat)
    (h : Listing nodes done ready waiting) :
    ∀ j ∈ listReady nodes n waiting ready, j < nodes.length := by
  induction n generalizing done ready waiting with
  | zero => exact fun _ hj => absurd hj List.not_mem_nil
  | succ n ih =>
      cases ready with
      | nil => exact fun _ hj => absurd hj List.not_mem_nil
      | cons k ready =>
          intro j hj
          rcases List.mem_cons.1 hj with rfl | hj
          · exact h.bounded j (by simp)
          · exact ih (h.step hmirror) j hj

/-- When the listing ends, what waits for nothing else is listed. -/
theorem mem_of_inputs_listed (hmirror : Mirrored nodes) (n : Nat)
    (h : Listing nodes done ready waiting) (hn : nodes.length ≤ done.length + n) {j : NodeId}
    (hj : j < nodes.length)
    (hinputs : ∀ i ∈ inputsIn nodes j, i ∈ done ++ listReady nodes n waiting ready) :
    j ∈ done ++ listReady nodes n waiting ready := by
  induction n generalizing done ready waiting with
  | zero =>
      obtain rfl := h.ready_eq_nil hn
      exact (h.ready j hj).2 (by simpa [listReady] using hinputs)
  | succ n ih =>
      cases ready with
      | nil => exact (h.ready j hj).2 (by simpa [listReady] using hinputs)
      | cons k ready =>
          rw [listReady] at hinputs ⊢
          rw [List.perm_middle.mem_iff]
          refine ih (h.step hmirror) (by rw [List.length_cons]; omega) fun i hi => ?_
          exact List.perm_middle.mem_iff.1 (hinputs i hi)

end Listing

/-! ## The order -/

variable {nodes : List Node}

/-- In the order of the nodes, each comes after all its inputs. -/
theorem inputsFirst_inOrder (hmirror : Mirrored nodes) :
    InputsFirst nodes [] (inOrder nodes) :=
  (Listing.start nodes).inputsFirst_listReady hmirror _

/-- No node is listed twice. -/
theorem nodup_inOrder (hmirror : Mirrored nodes) : (inOrder nodes).Nodup :=
  (Listing.start nodes).nodup_listReady hmirror nodes.length

theorem lt_of_mem_inOrder (hmirror : Mirrored nodes) {k : NodeId} (hk : k ∈ inOrder nodes) :
    k < nodes.length :=
  (Listing.start nodes).lt_of_mem_listReady hmirror _ k hk

theorem InputsFirst.inputs_of_append {done before after : List NodeId} {k : NodeId}
    (h : InputsFirst nodes done (before ++ k :: after)) :
    ∀ i ∈ inputsIn nodes k, i ∈ done ∨ i ∈ before := by
  induction before generalizing done with
  | nil => exact fun i hi => .inl (h.1 i hi)
  | cons first before ih =>
      intro i hi
      rcases ih h.2 i hi with hdone | hbefore
      · rcases List.mem_cons.1 hdone with rfl | hdone
        · exact .inr List.mem_cons_self
        · exact .inl hdone
      · exact .inr (List.mem_cons_of_mem _ hbefore)

/-- What is listed before a node holds the inputs of all that is listed up to it. -/
theorem inputs_before {before after : List NodeId} {k : NodeId} (hmirror : Mirrored nodes)
    (h : inOrder nodes = before ++ k :: after) {j : NodeId} (hj : j = k ∨ j ∈ before)
    {i : NodeId} (hi : i ∈ inputsIn nodes j) : i ∈ before := by
  have hfirst := inputsFirst_inOrder hmirror
  rw [h] at hfirst
  rcases hj with rfl | hj
  · exact (hfirst.inputs_of_append i hi).resolve_left List.not_mem_nil
  · obtain ⟨front, back, rfl⟩ := List.append_of_mem hj
    rw [List.append_assoc, List.cons_append] at hfirst
    exact List.mem_append_left _
      ((hfirst.inputs_of_append i hi).resolve_left List.not_mem_nil)

/-- A node is an input of another one. -/
def Feeds (nodes : List Node) (i k : NodeId) : Prop :=
  i ∈ inputsIn nodes k

/-- All that a listed node depends on is listed before it. -/
theorem mem_before_of_transGen (hmirror : Mirrored nodes) {before after : List NodeId}
    {i k : NodeId} (h : inOrder nodes = before ++ k :: after)
    (hreach : Relation.TransGen (Feeds nodes) i k) : i ∈ before := by
  induction hreach using Relation.TransGen.head_induction_on with
  | single hstep => exact inputs_before hmirror h (.inl rfl) hstep
  | head hstep _ ih => exact inputs_before hmirror h (.inr ih) hstep

/-- The inputs of a node, their inputs and so on come to an end. -/
def Ends (nodes : List Node) (k : NodeId) : Prop :=
  Acc (fun i j => i ∈ inputsIn nodes j) k

theorem mem_inOrder_of_ends (hmirror : Mirrored nodes) {k : NodeId} (h : Ends nodes k)
    (hk : k < nodes.length) : k ∈ inOrder nodes := by
  induction h with
  | intro k _ ih =>
      refine (Listing.start nodes).mem_of_inputs_listed hmirror nodes.length (by simp) hk ?_
      exact fun i hi => ih i hi (hmirror.lt_of_mem_inputsIn hi).1

theorem InputsFirst.ends {done order : List NodeId} (h : InputsFirst nodes done order)
    (hdone : ∀ i ∈ done, Ends nodes i) : ∀ k ∈ order, Ends nodes k := by
  induction order generalizing done with
  | nil => exact fun _ hk => absurd hk List.not_mem_nil
  | cons k rest ih =>
      have hends : Ends nodes k := Acc.intro k fun i hi => hdone i (h.1 i hi)
      exact List.forall_mem_cons.2 ⟨hends, ih h.2 (List.forall_mem_cons.2 ⟨hends, hdone⟩)⟩

/-- The nodes that are listed are those whose inputs come to an end. -/
theorem mem_inOrder_iff (hmirror : Mirrored nodes) {k : NodeId} (hk : k < nodes.length) :
    k ∈ inOrder nodes ↔ Ends nodes k :=
  ⟨(inputsFirst_inOrder hmirror).ends (fun _ hi => absurd hi List.not_mem_nil) k,
    fun h => mem_inOrder_of_ends hmirror h hk⟩

end Node

end LiveQuery
