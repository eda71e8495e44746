import LiveQuery.Proofs.Graph.Listing
import LiveQuery.Proofs.Graph.Visits

/-!
# The root of a query's graph

Every node but the first is made for a dependent that is there already. So all nodes lead
up to the first one, the selection of the outermost body, and it comes last wherever nodes
are put in order.

**Results.** `Sketch.Sound` holds of every sketch on the way (`Visits.sound`).
`Graph.Rooted.query_last`: wherever the bodies of some nodes are put in order, the outermost
one is the last.
-/

namespace LiveQuery

namespace Sketch

/-- What has been sketched stays: nodes with their kinds and inputs, and the node of each
object. -/
structure Extends (s s' : Sketch) : Prop where
  length : s.nodes.length ≤ s'.nodes.length
  kinds : ∀ (k : NodeId) (kind : NodeKind), s.nodes[k]?.map Node.kind = some kind →
    s'.nodes[k]?.map Node.kind = some kind
  index : ∀ (id : Identity) (k : NodeId), s.index.lookup id = some k →
    s'.index.lookup id = some k
  inputs : ∀ k, Node.inputsIn s.nodes k <+: Node.inputsIn s'.nodes k

/-- Objects have nodes that are there, edges are noted at both ends, only the node of a
body selects it, and every node but the first was made for an earlier one. -/
structure Sound (s : Sketch) : Prop where
  indexed : ∀ (id : Identity) (k : NodeId), s.index.lookup id = some k → k < s.nodes.length
  mirrored : Node.Mirrored s.nodes
  selects : ∀ (k : NodeId) (body : BodyId),
    s.nodes[k]?.map Node.kind = some (.selection body) → s.index.lookup (.body body) = some k
  anchored : ∀ k : Nat, 0 < k → k < s.nodes.length → ∃ j ∈ Node.dependentsIn s.nodes k, j < k

namespace Extends

theorem refl (s : Sketch) : Extends s s where
  length := Nat.le_refl _
  kinds _ _ h := h
  index _ _ h := h
  inputs _ := List.prefix_rfl

theorem trans {s s' s'' : Sketch} (h : Extends s s') (h' : Extends s' s'') : Extends s s'' where
  length := Nat.le_trans h.length h'.length
  kinds k kind hk := h'.kinds k kind (h.kinds k kind hk)
  index id k hk := h'.index id k (h.index id k hk)
  inputs k := (h.inputs k).trans (h'.inputs k)

end Extends

/-! ## Linking -/

@[simp] theorem link_none (s : Sketch) (node : NodeId) : s.link node none = s := rfl

@[simp] theorem index_link (s : Sketch) (node : NodeId) (dependent : Option NodeId) :
    (s.link node dependent).index = s.index := by
  cases dependent <;> rfl

@[simp] theorem length_link (s : Sketch) (node : NodeId) (dependent : Option NodeId) :
    (s.link node dependent).nodes.length = s.nodes.length := by
  cases dependent <;> simp [link]

theorem kinds_link (s : Sketch) (node : NodeId) (dependent : Option NodeId) (k : NodeId) :
    (s.link node dependent).nodes[k]?.map Node.kind = s.nodes[k]?.map Node.kind := by
  cases dependent with
  | none => rfl
  | some dependent =>
      simp only [link, List.getElem?_modify]
      cases s.nodes[k]? with
      | none => rfl
      | some n =>
          simp only [Option.map_eq_map, Option.map_some]
          split <;> split <;> rfl

theorem dependentsIn_link (s : Sketch) {node : NodeId} (hnode : node < s.nodes.length)
    (dependent k : NodeId) :
    Node.dependentsIn (s.link node (some dependent)).nodes k
      = Node.dependentsIn s.nodes k ++ if k = node then [dependent] else [] := by
  simp only [Node.dependentsIn, link, List.getElem?_modify]
  by_cases hk : k = node
  · subst hk
    simp only [List.getElem?_eq_getElem hnode, Option.map_eq_map, Option.map_some,
      Option.getD_some, if_true]
    split <;> rfl
  · cases s.nodes[k]? with
    | none => simp [hk]
    | some n =>
        simp only [Option.map_eq_map, Option.map_some, Option.getD_some, Ne.symm hk, hk,
          if_false, List.append_nil]
        split <;> rfl

theorem inputsIn_link (s : Sketch) {node dependent : NodeId}
    (hdependent : dependent < s.nodes.length) (k : NodeId) :
    Node.inputsIn (s.link node (some dependent)).nodes k
      = Node.inputsIn s.nodes k ++ if k = dependent then [node] else [] := by
  simp only [Node.inputsIn, link, List.getElem?_modify]
  by_cases hk : k = dependent
  · subst hk
    simp only [List.getElem?_eq_getElem hdependent, Option.map_eq_map, Option.map_some,
      Option.getD_some, if_true]
    split <;> rfl
  · cases s.nodes[k]? with
    | none => simp [hk]
    | some n =>
        simp only [Option.map_eq_map, Option.map_some, Option.getD_some, Ne.symm hk, hk,
          if_false]
        split <;> simp

/-- A new edge is noted once at each of its ends. -/
theorem count_edge (node dependent i j : NodeId) :
    (if i = node then [dependent] else []).count j
      = (if j = dependent then [node] else []).count i := by
  by_cases hi : i = node
  · by_cases hj : j = dependent
    · simp [hi, hj]
    · simp [hi, hj, Ne.symm hj]
  · by_cases hj : j = dependent
    · simp [hi, hj, Ne.symm hi]
    · simp [hi, hj]

theorem extends_link (s : Sketch) (node : NodeId) {dependent : Option NodeId}
    (hdependent : ∀ d ∈ dependent, d < s.nodes.length) : Extends s (s.link node dependent) where
  length := Nat.le_of_eq (length_link s node dependent).symm
  kinds k kind h := by rwa [kinds_link]
  index id k h := by rwa [index_link]
  inputs k := by
    cases dependent with
    | none => exact List.prefix_rfl
    | some d =>
        rw [inputsIn_link s (hdependent d rfl)]
        exact List.prefix_append _ _

theorem Sound.link {s : Sketch} (h : s.Sound) {node : NodeId} (hnode : node < s.nodes.length)
    {dependent : Option NodeId} (hdependent : ∀ d ∈ dependent, d < s.nodes.length) :
    (s.link node dependent).Sound := by
  cases dependent with
  | none => exact h
  | some d =>
      have hd := hdependent d rfl
      refine ⟨fun id k hk => ?_, fun i j => ?_, fun k body hk => ?_, fun k hpos hk => ?_⟩
      · rw [index_link] at hk
        rw [length_link]
        exact h.indexed id k hk
      · rw [dependentsIn_link s hnode, inputsIn_link s hd, List.count_append, List.count_append,
          h.mirrored i j, count_edge]
      · rw [kinds_link] at hk
        rw [index_link]
        exact h.selects k body hk
      · rw [length_link] at hk
        obtain ⟨j, hj, hlt⟩ := h.anchored k hpos hk
        rw [dependentsIn_link s hnode]
        exact ⟨j, List.mem_append_left _ hj, hlt⟩

/-! ## Creating -/

theorem lookup_register (s : Sketch) (id : Identity) (node : NodeId) (id' : Identity) :
    (s.register id node).index.lookup id'
      = if id' = id then some node else s.index.lookup id' := by
  simp only [register, List.lookup_cons]
  by_cases h : id' = id
  · simp [h]
  · have : (id' == id) = false := by simpa using h
    simp [h, this]

/-- The sketch with one more node, before it is linked. -/
def added (s : Sketch) (id : Identity) (kind : NodeKind) : Sketch :=
  ({ s with nodes := s.nodes ++ [{ kind := kind }] } : Sketch).register id s.nodes.length

theorem create_eq (s : Sketch) (id : Identity) (kind : NodeKind) (dependent : Option NodeId) :
    s.create id kind dependent = (s.added id kind).link s.nodes.length dependent := rfl

@[simp] theorem length_added (s : Sketch) (id : Identity) (kind : NodeKind) :
    (s.added id kind).nodes.length = s.nodes.length + 1 :=
  List.length_append

theorem lookup_added (s : Sketch) (id : Identity) (kind : NodeKind) (id' : Identity) :
    (s.added id kind).index.lookup id'
      = if id' = id then some s.nodes.length else s.index.lookup id' :=
  lookup_register { s with nodes := s.nodes ++ [{ kind := kind }] } id s.nodes.length id'

theorem kinds_added (s : Sketch) (id : Identity) (kind : NodeKind) (k : Nat) :
    (s.added id kind).nodes[k]?.map Node.kind
      = if k = s.nodes.length then some kind else s.nodes[k]?.map Node.kind := by
  change (s.nodes ++ [{ kind := kind }])[k]?.map Node.kind = _
  rw [List.getElem?_append]
  split
  next hlt => rw [if_neg (Nat.ne_of_lt hlt)]
  next hge =>
    by_cases hk : k = s.nodes.length
    · simp [hk]
    · have hlen : s.nodes.length < k := by omega
      rw [if_neg hk, List.getElem?_eq_none (by rw [List.length_singleton]; omega),
        List.getElem?_eq_none (Nat.le_of_lt hlen)]

theorem inputsIn_added (s : Sketch) (id : Identity) (kind : NodeKind) (k : NodeId) :
    Node.inputsIn (s.added id kind).nodes k = Node.inputsIn s.nodes k := by
  change ((s.nodes ++ [({ kind := kind } : Node)])[k]?.map Node.dependsOn).getD [] = _
  rw [List.getElem?_append]
  split
  · rfl
  next hge =>
    rw [Node.inputsIn_of_length_le (Nat.le_of_not_lt hge)]
    cases k - s.nodes.length <;> rfl

theorem dependentsIn_added (s : Sketch) (id : Identity) (kind : NodeKind) (k : NodeId) :
    Node.dependentsIn (s.added id kind).nodes k = Node.dependentsIn s.nodes k := by
  change ((s.nodes ++ [({ kind := kind } : Node)])[k]?.map Node.dependedUpon).getD [] = _
  rw [List.getElem?_append]
  split
  · rfl
  next hge =>
    rw [Node.dependentsIn_of_length_le (Nat.le_of_not_lt hge)]
    cases k - s.nodes.length <;> rfl

theorem extends_added {s : Sketch} {id : Identity} (kind : NodeKind)
    (hnew : s.index.lookup id = none) : Extends s (s.added id kind) where
  length := by simp
  kinds k kind' h := by
    rw [kinds_added]
    split
    next hk =>
      rw [hk, List.getElem?_eq_none (Nat.le_refl _)] at h
      cases h
    · exact h
  index id' k h := by
    rw [lookup_added]
    split
    next hid =>
      rw [hid, hnew] at h
      cases h
    · exact h
  inputs k := (inputsIn_added s id kind k).symm ▸ List.prefix_rfl

theorem extends_create {s : Sketch} {id : Identity} (kind : NodeKind)
    {dependent : Option NodeId} (hnew : s.index.lookup id = none)
    (hdependent : ∀ d ∈ dependent, d < s.nodes.length) :
    Extends s (s.create id kind dependent) :=
  (extends_added kind hnew).trans
    (extends_link _ _ fun d hd => by rw [length_added]; exact Nat.lt_succ_of_lt (hdependent d hd))

@[simp] theorem length_create (s : Sketch) (id : Identity) (kind : NodeKind)
    (dependent : Option NodeId) :
    (s.create id kind dependent).nodes.length = s.nodes.length + 1 := by
  rw [create_eq, length_link, length_added]

theorem lookup_create (s : Sketch) (id : Identity) (kind : NodeKind)
    (dependent : Option NodeId) (id' : Identity) :
    (s.create id kind dependent).index.lookup id'
      = if id' = id then some s.nodes.length else s.index.lookup id' := by
  rw [create_eq, index_link, lookup_added]

theorem kinds_create (s : Sketch) (id : Identity) (kind : NodeKind)
    (dependent : Option NodeId) (k : NodeId) :
    (s.create id kind dependent).nodes[k]?.map Node.kind
      = if k = s.nodes.length then some kind else s.nodes[k]?.map Node.kind := by
  rw [create_eq, kinds_link, kinds_added]

theorem Sound.create {s : Sketch} (h : s.Sound) {id : Identity}
    (hnew : s.index.lookup id = none) (kind : NodeKind)
    (hkind : ∀ body, kind = .selection body → id = .body body) {dependent : Option NodeId}
    (hdependent : ∀ d ∈ dependent, d < s.nodes.length)
    (hfirst : dependent = none → s.nodes = []) : (s.create id kind dependent).Sound := by
  -- All of `Sound` but the anchor of the new node holds before it is linked.
  have hadded : ∀ d ∈ dependent, d < (s.added id kind).nodes.length := fun d hd => by
    rw [length_added]
    exact Nat.lt_succ_of_lt (hdependent d hd)
  have hnode : s.nodes.length < (s.added id kind).nodes.length := by simp
  refine ⟨fun id' k hk => ?_, fun i j => ?_, fun k body hk => ?_, fun k hpos hk => ?_⟩
  · rw [lookup_create] at hk
    rw [length_create]
    split at hk
    · cases hk
      exact Nat.lt_succ_self _
    · exact Nat.lt_succ_of_lt (h.indexed id' k hk)
  · cases dependent with
    | none =>
        rw [create_eq, link_none, dependentsIn_added, inputsIn_added]
        exact h.mirrored i j
    | some d =>
        rw [create_eq, dependentsIn_link _ hnode, inputsIn_link _ (hadded d rfl),
          dependentsIn_added, inputsIn_added, List.count_append, List.count_append,
          h.mirrored i j, count_edge]
  · rw [kinds_create] at hk
    rw [lookup_create]
    split at hk
    next hk' =>
      cases hk
      rw [if_pos (hkind body rfl).symm, hk']
    · have hold := h.selects k body hk
      rw [if_neg, hold]
      rintro rfl
      rw [hnew] at hold
      cases hold
  · rw [length_create] at hk
    cases dependent with
    | none =>
        rw [hfirst rfl] at hk
        simp at hk
        omega
    | some d =>
        rw [create_eq, dependentsIn_link _ hnode, dependentsIn_added]
        by_cases hlast : k = s.nodes.length
        · exact ⟨d, by simp [hlast], hlast ▸ hdependent d rfl⟩
        · obtain ⟨j, hj, hlt⟩ := h.anchored k hpos (by omega)
          exact ⟨j, List.mem_append_left _ hj, hlt⟩

theorem Sound.register {s : Sketch} (h : s.Sound) {id : SourceId} {node : NodeId}
    (hnode : node < s.nodes.length) : (s.register (.source id) node).Sound where
  indexed id' k hk := by
    rw [lookup_register] at hk
    split at hk
    · cases hk
      exact hnode
    · exact h.indexed id' k hk
  mirrored := h.mirrored
  selects k body hk := by
    rw [lookup_register, if_neg (by simp)]
    exact h.selects k body hk
  anchored := h.anchored

theorem Sound.empty : ({} : Sketch).Sound where
  indexed id k h := by cases h
  mirrored i j := by simp [Node.dependentsIn, Node.inputsIn]
  selects k body h := by simp at h
  anchored k hpos hk := by simp at hk

end Sketch

/-! ## Visits -/

/-- The node that visiting a body gives. -/
def Visited.node? : Visited → Option NodeId
  | .body _ node => some node
  | _ => none

namespace Visits

variable {plan : Plan} {walk : Walk} {visited : Visited} {dependent : Option NodeId}
  {s s' : Sketch}

/-- Visits extend a sketch and keep it sound; only the very first one has no dependent. -/
theorem sound (h : Visits plan walk visited dependent s s') (hs : s.Sound)
    (hdependent : ∀ d ∈ dependent, d < s.nodes.length)
    (hfirst : dependent = none → s.nodes = []) :
    s'.Sound ∧ s.Extends s' ∧ ∀ node ∈ visited.node?, node < s'.nodes.length := by
  induction h with
  | knownBody known _ =>
      have hnode := hs.indexed _ _ known
      refine ⟨hs.link hnode hdependent, Sketch.extends_link _ _ hdependent, ?_⟩
      intro node' heq
      cases heq
      rwa [Sketch.length_link]
  | @newBody walk id dependent s s₁ s₂ new _ _ _ ihSources ihExprs =>
      have hcreated := hs.create new (.selection id) (fun _ h => by cases h; rfl)
        hdependent hfirst
      have hgrown := Sketch.extends_create (.selection id) new hdependent
      have hlt : s.nodes.length < (s.create (.body id) (.selection id) dependent).nodes.length := by
        simp
      obtain ⟨hs₁, hext₁, _⟩ := ihSources hcreated (fun d hd => by cases hd; exact hlt)
        (fun h => by cases h)
      have hlt₁ := Nat.lt_of_lt_of_le hlt hext₁.length
      obtain ⟨hs₂, hext₂, _⟩ := ihExprs hs₁ (fun d hd => by cases hd; exact hlt₁)
        (fun h => by cases h)
      refine ⟨hs₂, hgrown.trans (hext₁.trans hext₂), ?_⟩
      intro node' heq
      cases heq
      exact Nat.lt_of_lt_of_le hlt₁ hext₂.length
  | knownSource known _ =>
      exact ⟨hs.link (hs.indexed _ _ known) hdependent, Sketch.extends_link _ _ hdependent,
        fun _ h => by cases h⟩
  | collection new _ =>
      exact ⟨hs.create new _ (fun _ h => by cases h) hdependent hfirst,
        Sketch.extends_create _ new hdependent, fun _ h => by cases h⟩
  | @query walk owner source sub node dependent s s₁ new _ _ ih =>
      obtain ⟨hs₁, hext, hnode⟩ := ih hs hdependent hfirst
      refine ⟨hs₁.register (hnode node rfl), ⟨hext.length, hext.kinds, ?_, hext.inputs⟩,
        fun _ h => by cases h⟩
      intro id k hk
      rw [Sketch.lookup_register, if_neg]
      · exact hext.index id k hk
      · rintro rfl
        rw [new] at hk
        cases hk
  | noSources => exact ⟨hs, .refl _, fun _ h => by cases h⟩
  | moreSources _ _ ihFirst ihOthers =>
      obtain ⟨hs₁, hext₁, _⟩ := ihFirst hs hdependent hfirst
      obtain ⟨hs₂, hext₂, _⟩ := ihOthers hs₁
        (fun d hd => Nat.lt_of_lt_of_le (hdependent d hd) hext₁.length) (fun h => by cases h)
      exact ⟨hs₂, hext₁.trans hext₂, fun _ h => by cases h⟩
  | knownExpr known _ =>
      exact ⟨hs.link (hs.indexed _ _ known) hdependent, Sketch.extends_link _ _ hdependent,
        fun _ h => by cases h⟩
  | literal new =>
      exact ⟨hs.create new _ (fun _ h => by cases h) hdependent hfirst,
        Sketch.extends_create _ new hdependent, fun _ h => by cases h⟩
  | reference new _ _ ih =>
      obtain ⟨hs₁, hext, _⟩ := ih (hs.create new _ (fun _ h => by cases h) hdependent hfirst)
        (fun d hd => by cases hd; simp) (fun h => by cases h)
      exact ⟨hs₁, (Sketch.extends_create _ new hdependent).trans hext, fun _ h => by cases h⟩
  | call new _ ih =>
      obtain ⟨hs₁, hext, _⟩ := ih (hs.create new _ (fun _ h => by cases h) hdependent hfirst)
        (fun d hd => by cases hd; simp) (fun h => by cases h)
      exact ⟨hs₁, (Sketch.extends_create _ new hdependent).trans hext, fun _ h => by cases h⟩
  | aggregate new _ ih =>
      obtain ⟨hs₁, hext, _⟩ := ih (hs.create new _ (fun _ h => by cases h) hdependent hfirst)
        (fun d hd => by cases hd; simp) (fun h => by cases h)
      exact ⟨hs₁, (Sketch.extends_create _ new hdependent).trans hext, fun _ h => by cases h⟩
  | subquery new _ ih =>
      obtain ⟨hs₁, hext, _⟩ := ih (hs.create new _ (fun _ h => by cases h) hdependent hfirst)
        (fun d hd => by cases hd; simp) (fun h => by cases h)
      exact ⟨hs₁, (Sketch.extends_create _ new hdependent).trans hext, fun _ h => by cases h⟩
  | noExprs => exact ⟨hs, .refl _, fun _ h => by cases h⟩
  | moreExprs _ _ ihFirst ihOthers =>
      obtain ⟨hs₁, hext₁, _⟩ := ihFirst hs hdependent hfirst
      obtain ⟨hs₂, hext₂, _⟩ := ihOthers hs₁
        (fun d hd => Nat.lt_of_lt_of_le (hdependent d hd) hext₁.length) (fun h => by cases h)
      exact ⟨hs₂, hext₁.trans hext₂, fun _ h => by cases h⟩

end Visits

/-! ## The root comes last -/

section Root

variable {plan : Plan} {query : BodyId} {g : Graph}

/-- The body that a node selects. -/
def Graph.bodyOf? (g : Graph) (k : NodeId) : Option BodyId :=
  match (g.node k).kind with
  | .selection body => some body
  | _ => none

theorem Graph.bodyOf?_eq_some_iff {k : NodeId} {body : BodyId} :
    g.bodyOf? k = some body ↔ (g.node k).kind = .selection body := by
  unfold Graph.bodyOf?
  split
  next body' hbody => simp [hbody]
  next hother =>
    constructor
    · rintro ⟨⟩
    · exact fun hkind => absurd hkind (hother body)

/-- What is known of the graph of an accepted query. -/
structure Graph.Rooted (g : Graph) (query : BodyId) : Prop where
  mirrored : Node.Mirrored g.nodes
  root_eq : g.root = 0
  root_kind : (g.node g.root).kind = .selection query
  selects : ∀ k body, k < g.nodes.length → (g.node k).kind = .selection body →
    g.index.lookup (.body body) = some k
  anchored : ∀ k : Nat, 0 < k → k < g.nodes.length → ∃ j ∈ Node.dependentsIn g.nodes k, j < k

theorem rooted_of_graph (h : plan.graph query = .ok g) : g.Rooted query := by
  obtain ⟨s, hvisits, hnodes, hindex⟩ := visits_of_graph h
  obtain ⟨hs, _, hroot⟩ := hvisits.sound .empty (fun d hd => by cases hd) (fun _ => rfl)
  have hkind : g.root = 0 ∧ s.nodes[0]?.map Node.kind = some (.selection query) := by
    generalize hroot : g.root = root at hvisits
    cases hvisits with
    | knownBody known _ => cases known
    | newBody new sources exprs joins =>
        have hcreated : (Sketch.create {} (.body query) (.selection query) none).Sound :=
          Sketch.Sound.empty.create new _ (fun _ h => by cases h; rfl) (fun d hd => by cases hd)
            (fun _ => rfl)
        obtain ⟨hs₁, hext₁, _⟩ := sources.sound hcreated (fun d hd => by cases hd; simp)
          (fun h => by cases h)
        obtain ⟨_, hext₂, _⟩ := exprs.sound hs₁
          (fun d hd => by cases hd; exact Nat.lt_of_lt_of_le (by simp) hext₁.length)
          (fun h => by cases h)
        exact ⟨rfl, (hext₁.trans hext₂).kinds 0 _ (by rw [Sketch.kinds_create]; rfl)⟩
  have hnode : ∀ k < g.nodes.length, s.nodes[k]?.map Node.kind = some (g.node k).kind := by
    intro k hk
    rw [Graph.node, hnodes, List.getD_eq_getElem?_getD]
    rw [hnodes] at hk
    simp [List.getElem?_eq_getElem hk]
  refine ⟨hnodes ▸ hs.mirrored, hkind.1, ?_, ?_, ?_⟩
  · have hlt : g.root < g.nodes.length := hnodes ▸ hroot g.root rfl
    have := hnode g.root hlt
    rw [hkind.1] at this
    rw [hkind.1]
    exact (Option.some.inj (hkind.2.symm.trans this)).symm
  · intro k body hk hselects
    rw [hindex]
    exact hs.selects k body (by rw [hnode k hk, hselects])
  · rw [hnodes]
    exact hs.anchored

namespace Graph.Rooted

/-- All that comes before the root in an order of the nodes is all there is but the root. -/
theorem mem_before (h : g.Rooted query) {before after : List NodeId}
    (horder : g.order = before ++ g.root :: after) {k : NodeId} (hk : k < g.nodes.length)
    (hne : k ≠ g.root) : k ∈ before := by
  induction k using Nat.strongRecOn with
  | ind k ih =>
      have hroot := h.root_eq
      obtain ⟨j, hj, hlt⟩ := h.anchored k (Nat.pos_of_ne_zero (hroot ▸ hne)) hk
      have hinput : k ∈ Node.inputsIn g.nodes j := h.mirrored.mem_iff.1 hj
      have hbefore : j = g.root ∨ j ∈ before := by
        by_cases hjroot : j = g.root
        · exact .inl hjroot
        · exact .inr (ih j hlt (h.mirrored.lt_of_mem_inputsIn hinput).2 hjroot)
      exact Node.inputs_before h.mirrored horder hbefore hinput

theorem nodup_order (h : g.Rooted query) : g.order.Nodup :=
  Node.nodup_inOrder h.mirrored

/-- Nothing comes after the root. -/
theorem after_root (h : g.Rooted query) {before after : List NodeId}
    (horder : g.order = before ++ g.root :: after) : after = [] := by
  refine List.eq_nil_iff_forall_not_mem.2 fun k hk => ?_
  have hnodup := h.nodup_order
  rw [horder] at hnodup
  have hmem : k ∈ g.order := by
    rw [horder]
    exact List.mem_append_right _ (List.mem_cons_of_mem _ hk)
  have hlt := Node.lt_of_mem_inOrder h.mirrored hmem
  by_cases hroot : k = g.root
  · rw [hroot] at hk
    exact (List.nodup_cons.1 (List.nodup_append.1 hnodup).2.1).1 hk
  · exact (List.disjoint_of_nodup_append hnodup) (h.mem_before horder hlt hroot)
      (List.mem_cons_of_mem _ hk)

/-- Only the root selects the query. -/
theorem eq_root_of_selects (h : g.Rooted query) {k : NodeId} (hk : k < g.nodes.length)
    (hkind : (g.node k).kind = .selection query) : k = g.root := by
  have hroot : g.root < g.nodes.length := by
    rw [h.root_eq]
    exact Nat.lt_of_le_of_lt (Nat.zero_le _) hk
  exact Option.some.inj
    ((h.selects k query hk hkind).symm.trans (h.selects _ query hroot h.root_kind))

/-- The root is before no other node. -/
theorem root_last (h : g.Rooted query) : g.order.Pairwise fun k _ => k ≠ g.root := by
  suffices hsuffix : ∀ nodes : List NodeId, nodes <:+ g.order →
      nodes.Pairwise fun k _ => k ≠ g.root from hsuffix _ List.suffix_rfl
  intro nodes
  induction nodes with
  | nil => exact fun _ => .nil
  | cons k rest ih =>
      rintro ⟨before, horder⟩
      refine .cons (fun later hlater hroot => ?_) (ih ⟨before ++ [k], by simp [← horder]⟩)
      have hrest : rest = [] := h.after_root (hroot ▸ horder.symm)
      rw [hrest] at hlater
      cases hlater

/-- Of the bodies that some nodes select, in order, the query is before no other. -/
theorem query_last (h : g.Rooted query) {nodes : List NodeId} (hsub : nodes.Sublist g.order) :
    (nodes.filterMap g.bodyOf?).Pairwise fun body _ => body ≠ query := by
  refine List.pairwise_filterMap.2 ((h.root_last.sublist hsub).imp_of_mem ?_)
  rintro k _ hk _ hroot body hbody _ _ rfl
  exact hroot (h.eq_root_of_selects
    (Node.lt_of_mem_inOrder h.mirrored (hsub.subset hk)) (Graph.bodyOf?_eq_some_iff.1 hbody))

end Graph.Rooted

end Root

end LiveQuery
