import LiveQuery.Proofs.Graph.Cycles
import LiveQuery.Proofs.Graph.Reach
import LiveQuery.Proofs.Plan.Unfolding
import Mathlib.Order.WellFounded

/-!
# Graphs without cycles

An object that is being walked is active, and met again it is an error: but a reference is not
active while the source that it stands for is walked. That source has been walked before, unless it
is joined after a source that reads its alias. So only where a source reads ahead can a reference
come to depend on itself.

**Results.** `Visits.settles`: where no source reads ahead, the inputs of all nodes come to an end.
`Plan.ordered_iff`: the graph of an accepted query has no cycle just if all nodes are listed, and
just if the root alone is an output; `Plan.ordered_fails` is a query where neither is so.
-/

namespace LiveQuery

namespace Plan

/-- No source of a body that is a query reads the alias of one that is joined after it. -/
def LooksBack (plan : Plan) (body : BodyId) : Prop :=
  (plan.body body).sources.Pairwise fun source later => ∀ sub sub', source.origin = .query sub →
    later.origin = .query sub' → later.name ∉ plan.freeAliases sub

/-- The bodies around the point where a walk is, the innermost first. When a source is walked, the
sources before it have been met, and all sources when an expression is. -/
inductive Along (plan : Plan) (query : BodyId) (s : Sketch) : List BodyId → Prop
  | root : Along plan query s [query]
  | source {body sub : BodyId} {outer : List BodyId} {source : Source} {before after : List Source}
      (around : Along plan query s (body :: outer))
      (sources : (plan.body body).sources = before ++ source :: after)
      (origin : source.origin = .query sub) (met : ∀ t ∈ before, s.Has (.source t.id)) :
      Along plan query s (sub :: body :: outer)
  | subquery {body sub : BodyId} {outer : List BodyId} {id : ExprId}
      (around : Along plan query s (body :: outer))
      (occurs : .subquery id sub ∈ (plan.body body).occurring)
      (met : ∀ t ∈ (plan.body body).sources, s.Has (.source t.id)) :
      Along plan query s (sub :: body :: outer)

namespace Along

variable {plan : Plan} {query : BodyId} {s s' : Sketch} {scopes : List BodyId}

theorem mono (h : Along plan query s scopes) (hmono : ∀ id, s.Has id → s'.Has id) :
    Along plan query s' scopes := by
  induction h with
  | root => exact .root
  | source _ sources origin met ih => exact .source ih sources origin fun t ht => hmono _ (met t ht)
  | subquery _ occurs met ih => exact .subquery ih occurs fun t ht => hmono _ (met t ht)

/-- All bodies around are below the query. -/
theorem reach {body : BodyId} {outer : List BodyId} (h : Along plan query s (body :: outer)) :
    Relation.ReflTransGen plan.Holds query body := by
  generalize hscopes : body :: outer = scopes at h
  induction h generalizing body outer with
  | root =>
      cases hscopes
      exact .refl
  | source _ sources origin _ ih =>
      cases hscopes
      exact (ih rfl).tail (.source (sources ▸ List.mem_append_right _ List.mem_cons_self) origin)
  | subquery _ occurs _ ih =>
      cases hscopes
      exact (ih rfl).tail (.subquery occurs)

end Along

/-- The alias that a body reads from outside stands for a source that has been met, for the body
itself or one around it, where no source reads ahead. -/
theorem met_of_resolve? {plan : Plan} {query : BodyId} {s : Sketch}
    (hwithin : ∀ body, Relation.ReflTransGen plan.Holds query body → plan.Within plan.depth body)
    (hback : ∀ body, Relation.ReflTransGen plan.Holds query body → plan.LooksBack body)
    {body binder : BodyId} {outer : List BodyId} (halong : Along plan query s (body :: outer))
    {name : String} (hfree : name ∈ plan.freeAliases body) {source : Source} {sub : BodyId}
    (hresolve : plan.resolve? outer name = some (binder, source))
    (horigin : source.origin = .query sub) :
    s.Has (.source source.id) ∨ sub ∈ body :: outer := by
  induction outer generalizing body with
  | nil => cases hresolve
  | cons around outer ih =>
      unfold resolve? at hresolve
      rw [List.findSome?_cons] at hresolve
      cases hsource : (plan.body around).source? name with
      | none =>
          -- the alias is read from outside the body around as well
          rw [hsource] at hresolve
          have hbinds : (plan.body around).binds name = false := by
            rw [Body.source?, List.find?_eq_none] at hsource
            exact List.any_eq_false.2 hsource
          have haround : Along plan query s (around :: outer) := by cases halong <;> assumption
          have hholds : plan.Holds around body := by
            cases halong with
            | source _ sources origin _ =>
                exact .source (sources ▸ List.mem_append_right _ List.mem_cons_self) origin
            | subquery _ occurs _ => exact .subquery occurs
          exact (ih haround ((hwithin around haround.reach).free_of_holds hholds hfree hbinds)
            hresolve).imp_right (List.mem_cons_of_mem _)
      | some found =>
          rw [hsource] at hresolve
          cases hresolve
          have hmem := List.mem_of_find?_eq_some hsource
          have hname : source.name = name := by simpa using List.find?_some hsource
          cases halong with
          | @source _ _ _ walked before after haround sources origin met =>
              rw [sources] at hmem
              rcases List.mem_append.1 hmem with hbefore | hmem
              · exact .inl (met _ hbefore)
              · rcases List.mem_cons.1 hmem with rfl | hafter
                · rw [origin] at horigin
                  cases horigin
                  exact .inr List.mem_cons_self
                · have hback := hback _ haround.reach
                  rw [LooksBack, sources] at hback
                  have hlater := (List.pairwise_cons.1 (List.pairwise_append.1 hback).2.1).1
                  exact absurd (hname ▸ hfree) (hlater source hafter body sub origin horigin)
          | subquery _ _ met => exact .inl (met _ hmem)

/-- The point in a body where its expressions are walked. -/
structure Inside (plan : Plan) (query : BodyId) (s : Sketch) (scopes : List BodyId)
    (owner : BodyId) : Prop where
  innermost : ∃ outer, scopes = owner :: outer
  along : plan.Along query s scopes
  met : ∀ t ∈ (plan.body owner).sources, s.Has (.source t.id)

namespace Inside

variable {plan : Plan} {query : BodyId} {s s' : Sketch} {scopes : List BodyId} {owner : BodyId}

theorem mono (h : plan.Inside query s scopes owner) (hmono : ∀ id, s.Has id → s'.Has id) :
    plan.Inside query s' scopes owner where
  innermost := h.innermost
  along := h.along.mono hmono
  met t ht := hmono _ (h.met t ht)

theorem subquery (h : plan.Inside query s scopes owner) {id : ExprId} {sub : BodyId}
    (hoccurs : .subquery id sub ∈ (plan.body owner).occurring) :
    plan.Along query s (sub :: scopes) := by
  obtain ⟨outer, rfl⟩ := h.innermost
  exact .subquery h.along hoccurs h.met

/-- The source that a reference stands for has been met, unless its body is being walked. -/
theorem met_of_reference (h : plan.Inside query s scopes owner)
    (hwithin : ∀ body, Relation.ReflTransGen plan.Holds query body → plan.Within plan.depth body)
    (hback : ∀ body, Relation.ReflTransGen plan.Holds query body → plan.LooksBack body)
    {id : ExprId} {path : Path} (hoccurs : .reference id path ∈ (plan.body owner).occurring)
    {binder : BodyId} {source : Source} {sub : BodyId}
    (hresolve : plan.resolve? scopes path.base = some (binder, source))
    (horigin : source.origin = .query sub) : s.Has (.source source.id) ∨ sub ∈ scopes := by
  obtain ⟨outer, rfl⟩ := h.innermost
  unfold resolve? at hresolve
  rw [List.findSome?_cons] at hresolve
  cases hsource : (plan.body owner).source? path.base with
  | none =>
      rw [hsource] at hresolve
      have hbinds : (plan.body owner).binds path.base = false := by
        rw [Body.source?, List.find?_eq_none] at hsource
        exact List.any_eq_false.2 hsource
      have hfree := (hwithin owner h.along.reach).free_of_reference hoccurs hbinds
      exact met_of_resolve? hwithin hback h.along hfree hresolve horigin
  | some found =>
      rw [hsource] at hresolve
      cases hresolve
      exact .inl (h.met _ (List.mem_of_find?_eq_some hsource))

end Inside

end Plan

/-! ## Open nodes -/

/-- The inputs of a node still come to an end when only nodes that it does not lead to get new
ones. -/
theorem Node.Ends.of_inputs_subset {nodes nodes' : List Node} {opened : List NodeId} {k : NodeId}
    (h : Node.Ends nodes k) (hk : k ∉ opened)
    (hclosed : ∀ k ∉ opened, ∀ i ∈ Node.inputsIn nodes k, i ∉ opened)
    (hsub : ∀ k ∉ opened, Node.inputsIn nodes' k ⊆ Node.inputsIn nodes k) : Node.Ends nodes' k := by
  induction h with
  | intro k _ ih =>
      refine Acc.intro k fun i hi => ?_
      have hold := hsub k hk hi
      exact ih i hold (hclosed k hk i hold)

/-- Some nodes are open: what they are made of is still being walked. No other node is computed
from an open one, and the inputs of all others come to an end. -/
structure Sketch.Settled (s : Sketch) (active : List Identity) (opened : List NodeId) : Prop where
  bounded : ∀ k ∈ opened, k < s.nodes.length
  known : ∀ id k, s.index.lookup id = some k → id ∉ active → k ∉ opened
  closed : ∀ k ∉ opened, ∀ i ∈ Node.inputsIn s.nodes k, i ∉ opened
  ends : ∀ k ∉ opened, Node.Ends s.nodes k

/-- Of the nodes that are there only the dependent gets new inputs, and they are not open. -/
def Sketch.Grows (opened : List NodeId) (dependent : Option NodeId) (s s' : Sketch) : Prop :=
  ∀ k < s.nodes.length, ∀ i ∈ Node.inputsIn s'.nodes k,
    i ∈ Node.inputsIn s.nodes k ∨ (dependent = some k ∧ i ∉ opened)

namespace Sketch

variable {s s' s'' : Sketch} {active : List Identity} {opened : List NodeId}
  {dependent : Option NodeId} {id : Identity} {node : NodeId}

namespace Grows

theorem refl (opened : List NodeId) (dependent : Option NodeId) (s : Sketch) :
    s.Grows opened dependent s :=
  fun _ _ _ hi => .inl hi

theorem trans (h : s.Grows opened dependent s') (h' : s'.Grows opened dependent s'')
    (hlength : s.nodes.length ≤ s'.nodes.length) : s.Grows opened dependent s'' := by
  intro k hk i hi
  rcases h' k (Nat.lt_of_lt_of_le hk hlength) i hi with hi | hi
  · exact h k hk i hi
  · exact .inr hi

theorem link (s : Sketch) (hdependent : ∀ d ∈ dependent, d < s.nodes.length)
    (hnode : node ∉ opened) : s.Grows opened dependent (s.link node dependent) := by
  intro k _ i hi
  cases dependent with
  | none => exact .inl hi
  | some d =>
      rw [inputsIn_link s (hdependent d rfl)] at hi
      rcases List.mem_append.1 hi with hi | hi
      · exact .inl hi
      · split at hi
        next hkd =>
          rw [List.mem_singleton.1 hi, hkd]
          exact .inr ⟨rfl, hnode⟩
        next => cases hi

end Grows

/-- The inputs that nodes have when one more is made: the dependent has it as an input. -/
theorem mem_inputsIn_create {kind : NodeKind} (hdependent : ∀ d ∈ dependent, d < s.nodes.length)
    {i k : NodeId} (hi : i ∈ Node.inputsIn (s.create id kind dependent).nodes k) :
    i ∈ Node.inputsIn s.nodes k ∨ (dependent = some k ∧ i = s.nodes.length) := by
  rw [create_eq] at hi
  cases dependent with
  | none => exact .inl (by rwa [link_none, inputsIn_added] at hi)
  | some d =>
      rw [inputsIn_link _ (by rw [length_added]; exact Nat.lt_succ_of_lt (hdependent d rfl)),
        inputsIn_added] at hi
      rcases List.mem_append.1 hi with hi | hi
      · exact .inl hi
      · split at hi
        next hkd => exact .inr ⟨hkd ▸ rfl, List.mem_singleton.1 hi⟩
        next => cases hi

namespace Settled

theorem lt_of_dependent (h : s.Settled active opened) (hdependent : ∀ d ∈ dependent, d ∈ opened) :
    ∀ d ∈ dependent, d < s.nodes.length :=
  fun d hd => h.bounded d (hdependent d hd)

/-- An open node gets one more input. -/
theorem link (h : s.Settled active opened) (node : NodeId)
    (hdependent : ∀ d ∈ dependent, d ∈ opened) : (s.link node dependent).Settled active opened := by
  have hsame : ∀ k ∉ opened,
      Node.inputsIn (s.link node dependent).nodes k = Node.inputsIn s.nodes k := by
    intro k hk
    cases dependent with
    | none => rfl
    | some d =>
        have hne : k ≠ d := fun heq => hk (heq ▸ hdependent d rfl)
        rw [inputsIn_link s (h.bounded d (hdependent d rfl)), if_neg hne, List.append_nil]
  refine ⟨fun k hk => ?_, fun id k hk => ?_, fun k hk => ?_, fun k hk => ?_⟩
  · rw [length_link]
    exact h.bounded k hk
  · rw [index_link] at hk
    exact h.known id k hk
  · rw [hsame k hk]
    exact h.closed k hk
  · exact (h.ends k hk).of_inputs_subset hk h.closed fun k hk =>
      (hsame k hk).symm ▸ List.Subset.refl _

/-- A node is made that is open from then on. -/
theorem begin (h : s.Settled active opened) (hs : s.Sound) (id : Identity) (kind : NodeKind)
    (hdependent : ∀ d ∈ dependent, d ∈ opened) :
    (s.create id kind dependent).Settled (id :: active) (s.nodes.length :: opened) := by
  have hsame : ∀ k ∉ s.nodes.length :: opened,
      Node.inputsIn (s.create id kind dependent).nodes k ⊆ Node.inputsIn s.nodes k := by
    intro k hk i hi
    refine (mem_inputsIn_create (h.lt_of_dependent hdependent) hi).resolve_right fun ⟨hd, _⟩ => ?_
    exact hk (List.mem_cons_of_mem _ (hdependent k hd))
  have hold : ∀ k ∉ s.nodes.length :: opened, k ∉ opened := fun k hk =>
    (not_or.1 (mt List.mem_cons.2 hk)).2
  have hclosed : ∀ k ∉ s.nodes.length :: opened, ∀ i ∈ Node.inputsIn s.nodes k,
      i ∉ s.nodes.length :: opened := by
    intro k hk i hi hmem
    rcases List.mem_cons.1 hmem with rfl | hmem
    · exact absurd (hs.mirrored.lt_of_mem_inputsIn hi).1 (Nat.lt_irrefl _)
    · exact h.closed k (hold k hk) i hi hmem
  refine ⟨?_, fun id' k hk hactive => ?_, fun k hk i hi => hclosed k hk i (hsame k hk hi),
    fun k hk => (h.ends k (hold k hk)).of_inputs_subset hk hclosed hsame⟩
  · rw [length_create]
    exact List.forall_mem_cons.2 ⟨Nat.lt_succ_self _, fun k hk => Nat.lt_succ_of_lt (h.bounded k hk)⟩
  · obtain ⟨hne, hactive⟩ := not_or.1 (mt List.mem_cons.2 hactive)
    rw [lookup_create, if_neg hne] at hk
    refine fun hmem => (List.mem_cons.1 hmem).elim (fun heq => ?_) (h.known id' k hk hactive)
    exact absurd (hs.indexed id' k hk) (heq ▸ Nat.lt_irrefl _)

/-- An open node is walked to its end. -/
theorem finish (h : s.Settled (id :: active) (node :: opened)) (hnode : node ∉ opened)
    (hlookup : s.index.lookup id = some node)
    (hinputs : ∀ i ∈ Node.inputsIn s.nodes node, i ∉ node :: opened) : s.Settled active opened := by
  have hnot : ∀ i, i ∉ node :: opened → i ∉ opened := fun i hi =>
    (not_or.1 (mt List.mem_cons.2 hi)).2
  refine ⟨fun k hk => h.bounded k (List.mem_cons_of_mem _ hk), fun id' k hk hactive => ?_,
    fun k hk i hi => ?_, fun k hk => ?_⟩
  · by_cases hid : id' = id
    · rw [hid, hlookup] at hk
      cases hk
      exact hnode
    · exact hnot k (h.known id' k hk (List.not_mem_cons_of_ne_of_not_mem hid hactive))
  · by_cases heq : k = node
    · exact hnot i (hinputs i (heq ▸ hi))
    · exact hnot i (h.closed k (List.not_mem_cons_of_ne_of_not_mem heq hk) i hi)
  · by_cases heq : k = node
    · exact Acc.intro k fun i hi => h.ends i (hinputs i (heq ▸ hi))
    · exact h.ends k (List.not_mem_cons_of_ne_of_not_mem heq hk)

/-- A node is made, and what it is made of is walked: then it is open no more. -/
theorem complete (h : s.Settled active opened)
    (hdependent : ∀ d ∈ dependent, d ∈ opened) {kind : NodeKind}
    (hextends : (s.create id kind dependent).Extends s')
    (hsettled : s'.Settled (id :: active) (s.nodes.length :: opened))
    (hgrows : (s.create id kind dependent).Grows (s.nodes.length :: opened)
      (some s.nodes.length) s') :
    s'.Settled active opened ∧ s.Grows opened dependent s' ∧ s.nodes.length ∉ opened := by
  have hnew : s.nodes.length ∉ opened := fun hmem => absurd (h.bounded _ hmem) (Nat.lt_irrefl _)
  have hlt : ∀ k < s.nodes.length, k < (s.create id kind dependent).nodes.length := fun k hk => by
    rw [length_create]
    exact Nat.lt_succ_of_lt hk
  refine ⟨hsettled.finish hnew (hextends.index id _ (by rw [lookup_create, if_pos rfl])) ?_, ?_, hnew⟩
  · intro i hi
    rcases hgrows _ (by rw [length_create]; exact Nat.lt_succ_self _) i hi with hi | ⟨_, hi⟩
    · rcases mem_inputsIn_create (h.lt_of_dependent hdependent) hi with hi | ⟨hd, _⟩
      · rw [Node.inputsIn_of_length_le (Nat.le_refl _)] at hi
        cases hi
      · exact absurd (hdependent _ hd) hnew
    · exact hi
  · intro k hk i hi
    rcases hgrows k (hlt k hk) i hi with hi | ⟨heq, _⟩
    · rcases mem_inputsIn_create (h.lt_of_dependent hdependent) hi with hi | ⟨hd, rfl⟩
      · exact .inl hi
      · exact .inr ⟨hd, hnew⟩
    · exact absurd (Option.some.inj heq) (Nat.ne_of_gt hk)

/-- A node is made that is made of nothing else. -/
theorem leaf (h : s.Settled active opened) (hs : s.Sound) (id : Identity) (kind : NodeKind)
    (hdependent : ∀ d ∈ dependent, d ∈ opened) :
    (s.create id kind dependent).Settled active opened ∧
      s.Grows opened dependent (s.create id kind dependent) := by
  obtain ⟨hsettled, hgrows, _⟩ := h.complete hdependent (.refl _)
    (h.begin hs id kind hdependent) (.refl _ _ _)
  exact ⟨hsettled, hgrows⟩

end Settled

end Sketch

/-! ## Visits -/

/-- Where something is visited. -/
def Visited.Placed (plan : Plan) (query : BodyId) (s : Sketch) (scopes : List BodyId) :
    Visited → Prop
  | .body id _ => plan.Along query s (id :: scopes)
  | .source _ t => ∀ sub, t.origin = .query sub → plan.Along query s (sub :: scopes)
  | .sources owner ts => (∃ outer, scopes = owner :: outer) ∧ plan.Along query s scopes ∧
      ∃ before, (plan.body owner).sources = before ++ ts ∧ ∀ t ∈ before, s.Has (.source t.id)
  | .expr owner e => plan.Inside query s scopes owner ∧ e ∈ (plan.body owner).occurring
  | .exprs owner es => plan.Inside query s scopes owner ∧ ∀ e ∈ es, e ∈ (plan.body owner).occurring

/-- The bodies around are being walked. -/
def Walk.Entered (walk : Walk) (s : Sketch) : Prop :=
  ∀ body ∈ walk.scopes, .body body ∈ walk.active ∧ s.Has (.body body)

namespace Walk.Entered

variable {walk : Walk} {s s' : Sketch}

theorem mono (h : walk.Entered s) (hmono : ∀ id, s.Has id → s'.Has id) : walk.Entered s' :=
  fun body hbody => (h body hbody).imp_right (hmono _)

theorem inside (h : walk.Entered s) (id : Identity) : (walk.inside id).Entered s :=
  fun body hbody => (h body hbody).imp_left (List.mem_cons_of_mem _)

theorem enter (h : walk.Entered s) {id : BodyId} (hid : s.Has (.body id)) :
    (walk.enter id).Entered s :=
  List.forall_mem_cons.2 ⟨⟨List.mem_cons_self, hid⟩,
    fun body hbody => (h body hbody).imp_left (List.mem_cons_of_mem _)⟩

end Walk.Entered

namespace Visits

variable {plan : Plan} {query : BodyId} {walk : Walk} {visited : Visited}
  {dependent : Option NodeId} {s s' : Sketch} {opened : List NodeId}

/-- A node is made for an expression, and one visit walks all that it is made of. -/
theorem settles_around {active : List Identity} {id : ExprId} {kind : NodeKind}
    (h : Visits plan walk visited (some s.nodes.length) (s.create (.expr id) kind dependent) s')
    (hs : s.Sound) (hfirst : dependent = none → s.nodes = [])
    (new : s.index.lookup (.expr id) = none) (hkind : ∀ body, kind ≠ .selection body)
    (hsettled : s.Settled active opened) (hdependent : ∀ d ∈ dependent, d ∈ opened)
    (hvisit : (s.create (.expr id) kind dependent).Sound →
      (s.create (.expr id) kind dependent).Settled (.expr id :: active) (s.nodes.length :: opened) →
      (∀ d ∈ some s.nodes.length, d ∈ s.nodes.length :: opened) →
      s'.Settled (.expr id :: active) (s.nodes.length :: opened) ∧
        (s.create (.expr id) kind dependent).Grows (s.nodes.length :: opened) (some s.nodes.length)
          s' ∧ ∀ node ∈ visited.node?, node ∉ s.nodes.length :: opened) :
    s'.Settled active opened ∧ s.Grows opened dependent s' := by
  have hsound := hs.create new kind (fun body heq => absurd heq (hkind body))
    (hsettled.lt_of_dependent hdependent) hfirst
  obtain ⟨_, hext, _⟩ := h.sound hsound (fun d hd => by cases hd; simp) fun heq => by cases heq
  obtain ⟨hsettled', hgrows', _⟩ := hvisit hsound (hsettled.begin hs _ kind hdependent)
    fun d hd => by cases hd; exact List.mem_cons_self
  obtain ⟨hdone, hgrows, _⟩ := hsettled.complete hdependent hext hsettled' hgrows'
  exact ⟨hdone, hgrows⟩

/-- Where no source reads ahead, a visit leaves what is visited settled. -/
theorem settles (h : Visits plan walk visited dependent s s')
    (hwithin : ∀ body, Relation.ReflTransGen plan.Holds query body → plan.Within plan.depth body)
    (hback : ∀ body, Relation.ReflTransGen plan.Holds query body → plan.LooksBack body)
    (hs : s.Sound) (hfirst : dependent = none → s.nodes = [])
    (hplaced : visited.Placed plan query s walk.scopes) (hentered : walk.Entered s)
    (hsettled : s.Settled walk.active opened) (hdependent : ∀ d ∈ dependent, d ∈ opened) :
    s'.Settled walk.active opened ∧ s.Grows opened dependent s' ∧
      ∀ node ∈ visited.node?, node ∉ opened := by
  have hcreated : ∀ {s : Sketch} {id kind dependent} id', s.Has id' →
      (s.create id kind dependent).Has id' :=
    fun id' hid => (Sketch.has_create _ _ _ _ _).2 (.inr hid)
  induction h generalizing opened with
  | @knownBody walk id node dependent s known inactive =>
      have hnode := hsettled.known _ _ known inactive
      refine ⟨hsettled.link node hdependent, .link s (hsettled.lt_of_dependent hdependent) hnode, ?_⟩
      rintro _ ⟨⟩
      exact hnode
  | @newBody walk id dependent s s₁ s₂ new sources exprs joins ihSources ihExprs =>
      have hlt := hsettled.lt_of_dependent hdependent
      have hsound := hs.create new (.selection id) (fun _ heq => by cases heq; rfl) hlt hfirst
      have hentered' : (walk.enter id).Entered (s.create (.body id) (.selection id) dependent) :=
        (hentered.mono hcreated).enter ((Sketch.has_create _ _ _ _ _).2 (.inl rfl))
      have halong : plan.Along query (s.create (.body id) (.selection id) dependent)
          (id :: walk.scopes) := hplaced.mono hcreated
      obtain ⟨hs₁, hext₁, _⟩ := sources.sound hsound (fun d hd => by cases hd; simp)
        fun heq => by cases heq
      obtain ⟨_, hext₂, _⟩ := exprs.sound hs₁
        (fun d hd => by cases hd; exact Nat.lt_of_lt_of_le (by simp) hext₁.length)
        fun heq => by cases heq
      obtain ⟨hsettled₁, hgrows₁, _⟩ := ihSources hsound (fun heq => by cases heq)
        ⟨⟨_, rfl⟩, halong, [], rfl, fun _ ht => by cases ht⟩ hentered'
        (hsettled.begin hs _ (.selection id) hdependent)
        fun d hd => by cases hd; exact List.mem_cons_self
      obtain ⟨hsettled₂, hgrows₂, _⟩ := ihExprs hs₁ (fun heq => by cases heq)
        ⟨⟨⟨_, rfl⟩, halong.mono fun _ => sources.has, sources.met⟩,
          fun e he => (plan.body id).expressions_subset_occurring he⟩
        (hentered'.mono fun _ => sources.has) hsettled₁
        fun d hd => by cases hd; exact List.mem_cons_self
      obtain ⟨hdone, hgrows, hnode⟩ := hsettled.complete hdependent (hext₁.trans hext₂) hsettled₂
        (hgrows₁.trans hgrows₂ hext₁.length)
      refine ⟨hdone, hgrows, ?_⟩
      rintro _ ⟨⟩
      exact hnode
  | @knownSource walk owner source node dependent s known inactive =>
      exact ⟨hsettled.link node hdependent, .link s (hsettled.lt_of_dependent hdependent)
        (hsettled.known _ _ known inactive), fun _ heq => by cases heq⟩
  | @collection walk owner source ref dependent s new origin =>
      obtain ⟨hleaf, hgrows⟩ := hsettled.leaf hs (.source source.id)
        (.collection source ref ((plan.body owner).conditionsReading source.name)) hdependent
      exact ⟨hleaf, hgrows, fun _ heq => by cases heq⟩
  | @query walk owner source sub node dependent s s₁ new origin body ih =>
      obtain ⟨hsettled₁, hgrows, hnode⟩ := ih hs hfirst (hplaced sub origin) hentered hsettled
        hdependent
      refine ⟨⟨hsettled₁.bounded, fun id k hk hactive => ?_, hsettled₁.closed, hsettled₁.ends⟩,
        hgrows, fun _ heq => by cases heq⟩
      rw [Sketch.lookup_register] at hk
      split at hk
      · cases hk
        exact hnode node rfl
      · exact hsettled₁.known id k hk hactive
  | noSources => exact ⟨hsettled, .refl _ _ _, fun _ heq => by cases heq⟩
  | @moreSources walk owner source rest dependent s s₁ s₂ first others ihFirst ihOthers =>
      obtain ⟨⟨outer, hscopes⟩, halong, before, hsources, hmet⟩ := hplaced
      obtain ⟨hs₁, hext₁, _⟩ := first.sound hs (hsettled.lt_of_dependent hdependent) hfirst
      obtain ⟨hsettled₁, hgrows₁, _⟩ := ihFirst hs hfirst
        (fun sub horigin => by
          rw [hscopes] at halong ⊢
          exact .source halong hsources horigin hmet) hentered hsettled hdependent
      obtain ⟨hsettled₂, hgrows₂, _⟩ := ihOthers hs₁ (fun heq => by cases heq)
        ⟨⟨outer, hscopes⟩, halong.mono fun _ => first.has, before ++ [source], by simp [hsources],
          List.forall_mem_append.2 ⟨fun t ht => first.has (hmet t ht),
            List.forall_mem_singleton.2 first.met⟩⟩
        (hentered.mono fun _ => first.has) hsettled₁ hdependent
      exact ⟨hsettled₂, hgrows₁.trans hgrows₂ hext₁.length, fun _ heq => by cases heq⟩
  | @knownExpr walk owner e node dependent s known inactive =>
      exact ⟨hsettled.link node hdependent, .link s (hsettled.lt_of_dependent hdependent)
        (hsettled.known _ _ known inactive), fun _ heq => by cases heq⟩
  | @literal walk owner id value dependent s new =>
      obtain ⟨hleaf, hgrows⟩ :=
        hsettled.leaf hs (.expr id) (.expression (.literal id value)) hdependent
      exact ⟨hleaf, hgrows, fun _ heq => by cases heq⟩
  | @reference walk owner binder id path source dependent s s₁ new resolved origin ih =>
      obtain ⟨hdone, hgrows⟩ := origin.settles_around hs hfirst new (fun _ heq => by cases heq)
        hsettled hdependent fun hsound hbegun hself => by
          cases origin with
          | @knownSource _ _ _ node _ _ known inactive =>
              have hnode := hbegun.known _ _ known fun hmem =>
                (List.mem_cons.1 hmem).elim (fun heq => by cases heq) inactive
              exact ⟨hbegun.link node hself, .link _ (hbegun.lt_of_dependent hself) hnode,
                fun _ heq => by cases heq⟩
          | @collection _ _ _ ref _ _ new' origin =>
              obtain ⟨hleaf, hgrows⟩ := hbegun.leaf hsound (.source source.id)
                (.collection source ref ((plan.body binder).conditionsReading source.name)) hself
              exact ⟨hleaf, hgrows, fun _ heq => by cases heq⟩
          | @query _ _ _ sub node _ _ s₂ new' origin body =>
              -- its body would be walked now, although it has been or is being walked
              exfalso
              rcases hplaced.1.met_of_reference hwithin hback hplaced.2 resolved origin
                with ⟨k, hk⟩ | hsub
              · rw [(hcreated _ ⟨k, hk⟩).choose_spec] at new'
                cases new'
              · obtain ⟨hactive, k, hk⟩ := hentered sub hsub
                cases body with
                | knownBody _ inactive => exact inactive hactive
                | newBody new'' _ _ _ =>
                    rw [(hcreated _ ⟨k, hk⟩).choose_spec] at new''
                    cases new''
      exact ⟨hdone, hgrows, fun _ heq => by cases heq⟩
  | @call walk owner id function args dependent s s₁ new arguments ih =>
      obtain ⟨hdone, hgrows⟩ := arguments.settles_around hs hfirst new (fun _ heq => by cases heq)
        hsettled hdependent fun hsound hbegun hself => ih hsound (fun heq => by cases heq)
          ⟨hplaced.1.mono hcreated, fun arg harg => Body.occurring_of_child hplaced.2 harg⟩
          ((hentered.mono hcreated).inside _) hbegun hself
      exact ⟨hdone, hgrows, fun _ heq => by cases heq⟩
  | @aggregate walk owner id function args dependent s s₁ new arguments ih =>
      obtain ⟨hdone, hgrows⟩ := arguments.settles_around hs hfirst new (fun _ heq => by cases heq)
        hsettled hdependent fun hsound hbegun hself => ih hsound (fun heq => by cases heq)
          ⟨hplaced.1.mono hcreated, fun arg harg => Body.occurring_of_child hplaced.2 harg⟩
          ((hentered.mono hcreated).inside _) hbegun hself
      exact ⟨hdone, hgrows, fun _ heq => by cases heq⟩
  | @subquery walk owner id body node dependent s s₁ new selection ih =>
      have hinside : plan.Inside query
          (s.create (.expr id) (.expression (.subquery id body)) dependent) walk.scopes owner :=
        hplaced.1.mono hcreated
      obtain ⟨hdone, hgrows⟩ := selection.settles_around hs hfirst new (fun _ heq => by cases heq)
        hsettled hdependent fun hsound hbegun hself => ih hsound (fun heq => by cases heq)
          (hinside.subquery hplaced.2) ((hentered.mono hcreated).inside _) hbegun hself
      exact ⟨hdone, hgrows, fun _ heq => by cases heq⟩
  | noExprs => exact ⟨hsettled, .refl _ _ _, fun _ heq => by cases heq⟩
  | @moreExprs walk owner e rest dependent s s₁ s₂ first others ihFirst ihOthers =>
      obtain ⟨hfirstIn, hrestIn⟩ := List.forall_mem_cons.1 hplaced.2
      obtain ⟨hs₁, hext₁, _⟩ := first.sound hs (hsettled.lt_of_dependent hdependent) hfirst
      obtain ⟨hsettled₁, hgrows₁, _⟩ := ihFirst hs hfirst ⟨hplaced.1, hfirstIn⟩ hentered hsettled
        hdependent
      obtain ⟨hsettled₂, hgrows₂, _⟩ := ihOthers hs₁ (fun heq => by cases heq)
        ⟨hplaced.1.mono fun _ => first.has, hrestIn⟩ (hentered.mono fun _ => first.has) hsettled₁
        hdependent
      exact ⟨hsettled₂, hgrows₁.trans hgrows₂ hext₁.length, fun _ heq => by cases heq⟩

end Visits

theorem Sketch.Settled.empty (active : List Identity) : ({} : Sketch).Settled active [] where
  bounded _ hk := absurd hk List.not_mem_nil
  known _ _ hk := by cases hk
  closed _ _ _ _ := List.not_mem_nil
  ends k _ := Acc.intro k fun _ hi => by cases hi

/-! ## Accepted queries -/

/-- No node is computed from itself. -/
def Graph.Acyclic (g : Graph) : Prop :=
  ∀ k, g.isComputedFrom k k = false

/-- All nodes are listed. -/
def Graph.Complete (g : Graph) : Prop :=
  ∀ k < g.size, k ∈ g.order

/-- A relation between numbers below a bound has no endless descents if it has no cycles. -/
theorem acc_of_not_transGen {r : Nat → Nat → Prop} {n : Nat} (hr : ∀ i j, r i j → i < n)
    (hcycle : ∀ k, ¬Relation.TransGen r k k) (k : Nat) : Acc r k := by
  let below : Fin n → Fin n → Prop := fun i j => Relation.TransGen r i j
  have : IsTrans (Fin n) below := ⟨fun _ _ _ => Relation.TransGen.trans⟩
  have : Std.Irrefl below := ⟨fun i => hcycle i⟩
  have hbelow : ∀ i : Fin n, Acc r i := fun i => by
    induction i using (Finite.wellFounded_of_trans_of_irrefl below).induction with
    | _ i ih => exact Acc.intro _ fun j hj => ih ⟨j, hr j i hj⟩ (.single hj)
  exact Acc.intro k fun i hi => hbelow ⟨i, hr i k hi⟩

theorem not_transGen_of_acc {α : Type} {r : α → α → Prop} {a : α} (h : Acc r a) :
    ¬Relation.TransGen r a a := by
  induction h with
  | intro a _ ih =>
      intro hcycle
      obtain ⟨b, hback, hb⟩ := Relation.TransGen.tail'_iff.1 hcycle
      exact ih b hb (Relation.TransGen.head' hb hback)

theorem Graph.dependedUpon_node (g : Graph) (k : NodeId) :
    (g.node k).dependedUpon = Node.dependentsIn g.nodes k := by
  unfold Graph.node Node.dependentsIn
  rw [List.getD_eq_getElem?_getD]
  cases g.nodes[k]? <;> rfl

namespace Graph.Rooted

variable {query : BodyId} {g : Graph}

/-- The nodes of a graph are all listed just if none is computed from itself. -/
theorem complete_iff (h : g.Rooted query) : g.Complete ↔ g.Acyclic := by
  have hnot : g.Acyclic ↔ ∀ k, ¬Relation.TransGen g.Feeds k k :=
    forall_congr' fun k => by rw [← g.isComputedFrom_iff, Bool.not_eq_true]
  have hlt : ∀ {i k}, g.Feeds i k → i < g.size ∧ k < g.size := h.mirrored.lt_of_mem_inputsIn
  have hends : g.Complete ↔ ∀ k, Node.Ends g.nodes k := by
    constructor
    · intro hall k
      refine Acc.intro k fun i hi => ?_
      exact (Node.mem_inOrder_iff h.mirrored (hlt hi).1).1 (hall i (hlt hi).1)
    · exact fun hends k hk => (Node.mem_inOrder_iff h.mirrored hk).2 (hends k)
  rw [hends, hnot]
  exact ⟨fun hends k => not_transGen_of_acc (hends k),
    fun hcycle k => acc_of_not_transGen (fun i j hi => (hlt hi).1) hcycle k⟩

/-- They are all listed just if the root is the only output. -/
theorem outputs_eq_iff (h : g.Rooted query) (hroot : g.root < g.size) :
    g.outputs = [g.root] ↔ g.Complete := by
  constructor
  · intro houtputs k hk
    have hmem : g.root ∈ g.outputs := houtputs ▸ List.mem_cons_self
    obtain ⟨before, after, horder⟩ := List.append_of_mem (List.mem_filter.1 hmem).1
    by_cases hne : k = g.root
    · exact hne ▸ (List.mem_filter.1 hmem).1
    · rw [horder]
      exact List.mem_append_left _ (h.mem_before horder hk hne)
  · intro hall
    obtain ⟨before, after, horder⟩ := List.append_of_mem (hall g.root hroot)
    obtain rfl := h.after_root horder
    have hlast : g.root ∉ before := fun hmem => by
      have hnodup := h.nodup_order
      rw [horder] at hnodup
      exact (List.disjoint_of_nodup_append hnodup) hmem List.mem_cons_self
    have hbefore : before.filter (fun k => (g.node k).dependedUpon.isEmpty) = [] := by
      refine List.filter_eq_nil_iff.2 fun k hk hempty => ?_
      have hne : k ≠ g.root := fun heq => hlast (heq ▸ hk)
      have hlt : k < g.nodes.length := Node.lt_of_mem_inOrder h.mirrored (k := k) <| by
        rw [← order, horder]
        exact List.mem_append_left _ hk
      obtain ⟨j, hj, _⟩ := h.anchored k (Nat.pos_of_ne_zero (h.root_eq ▸ hne)) hlt
      rw [g.dependedUpon_node, List.isEmpty_iff] at hempty
      rw [hempty] at hj
      cases hj
    have hnone : (g.node g.root).dependedUpon = [] := by
      rw [g.dependedUpon_node]
      refine List.eq_nil_iff_forall_not_mem.2 fun j hj => hlast ?_
      have hinput := h.mirrored.mem_iff.1 hj
      have hmem := hall j (h.mirrored.lt_of_mem_inputsIn hinput).2
      rw [horder] at hmem
      refine Node.inputs_before h.mirrored horder ?_ hinput
      exact (List.mem_append.1 hmem).symm.imp_left List.mem_singleton.1
    rw [outputs, horder, List.filter_append, hbefore, List.nil_append, List.filter_cons,
      hnone]
    rfl

end Graph.Rooted

namespace Plan

variable {plan : Plan} {query : BodyId} {g : Graph}

theorem root_lt_of_graph (accepted : plan.graph query = .ok g) : g.root < g.size := by
  obtain ⟨s, hvisits, hnodes, _⟩ := visits_of_graph accepted
  obtain ⟨_, _, hroot⟩ := hvisits.sound .empty (fun _ hd => by cases hd) (fun _ => rfl)
  rw [Graph.size, hnodes]
  exact hroot _ rfl

/-- The graph of a query has no cycle when no source reads ahead. -/
theorem acyclic_of_looksBack (hwritten : plan.Written) (hquery : query < plan.bodies.length)
    (accepted : plan.graph query = .ok g)
    (hback : ∀ body, Relation.ReflTransGen plan.Holds query body → plan.LooksBack body) :
    g.Acyclic := by
  obtain ⟨s, hvisits, hnodes, _⟩ := visits_of_graph accepted
  have hwithin : ∀ body, Relation.ReflTransGen plan.Holds query body →
      plan.Within plan.depth body := fun _ => hwritten.within_of_graph accepted hquery
  obtain ⟨hsettled, _⟩ := hvisits.settles hwithin hback .empty (fun _ => rfl) Along.root
    (fun _ h => by cases h) (.empty []) fun _ h => by cases h
  have hrooted := rooted_of_graph accepted
  refine hrooted.complete_iff.1 fun k hk => (Node.mem_inOrder_iff hrooted.mirrored hk).2 ?_
  rw [hnodes]
  exact hsettled.ends k List.not_mem_nil

/-- The nodes of an accepted query are listed without repetition and inputs first. All of them are
listed just if none is computed from itself, and just if the root, the selection of the query, is
the only output. So it is where no source reads the alias of one that is joined after it. -/
theorem ordered_iff (hwritten : plan.Written) (hquery : query < plan.bodies.length)
    (accepted : plan.graph query = .ok g) :
    (g.order.Nodup ∧ (∀ k ∈ g.order, k < g.size) ∧ Node.InputsFirst g.nodes [] g.order) ∧
      (g.node g.root).kind = .selection query ∧
      (g.Complete ↔ g.Acyclic) ∧ (g.outputs = [g.root] ↔ g.Acyclic) ∧
      ((∀ body, Relation.ReflTransGen plan.Holds query body → plan.LooksBack body) → g.Acyclic) := by
  have hrooted := rooted_of_graph accepted
  have hroot : g.root < g.size := root_lt_of_graph accepted
  exact ⟨⟨hrooted.nodup_order, fun k => Node.lt_of_mem_inOrder hrooted.mirrored,
    Node.inputsFirst_inOrder hrooted.mirrored⟩, hrooted.root_kind, hrooted.complete_iff,
    (hrooted.outputs_eq_iff hroot).trans hrooted.complete_iff,
    acyclic_of_looksBack hwritten hquery accepted⟩

/-- A query over the rows of a collection, joined with one that reads its rows. -/
def lookingBack : Plan :=
  ({} : Plan).write
    [[.openBody, .bind "row" (.collection ⟨0, "rows"⟩) none, .selectValue (.ref ⟨1, ⟨"row", []⟩⟩),
      .closeBody, .bind "first" (.query 1) none,
      .openBody, .bind "other" (.collection ⟨0, "rows"⟩) none,
      .selectValue (.ref ⟨0, ⟨"first", []⟩⟩), .closeBody,
      .bind "second" (.query 2) (some .inner), .selectValue (.ref ⟨0, ⟨"second", []⟩⟩)]]

theorem lookingBack_written : lookingBack.Written :=
  written_write ⟨[], .first⟩ (by decide +kernel)

/-- The sources of the query are the rows and the query that reads them, in this order. -/
theorem lookingBack_looksBack (body : BodyId) : lookingBack.LooksBack body := by
  have hsources : ∀ body, (lookingBack.body body).sources =
      [[⟨1, "first", .query 1, none⟩, ⟨3, "second", .query 2, some .inner⟩],
        [⟨0, "row", .collection ⟨0, "rows"⟩, none⟩],
        [⟨2, "other", .collection ⟨0, "rows"⟩, none⟩]].getD body [] := by
    intro body
    match body with
    | 0 => rfl
    | 1 => rfl
    | 2 => rfl
    | _ + 3 => rfl
  have hfree : "second" ∉ lookingBack.freeAliases 1 := by decide +kernel
  unfold LooksBack
  rw [hsources]
  match body with
  | 0 =>
      refine .cons (fun later hlater sub _ horigin _ => ?_) (List.pairwise_singleton _ _)
      cases List.mem_singleton.1 hlater
      cases horigin
      exact hfree
  | 1 => exact List.pairwise_singleton _ _
  | 2 => exact List.pairwise_singleton _ _
  | _ + 3 => exact .nil

theorem ordered_iff_looking_back :
    lookingBack.Written ∧ 0 < lookingBack.bodies.length ∧
      (∀ body, lookingBack.LooksBack body) ∧ ∃ g, lookingBack.graph 0 = .ok g ∧
        g.Acyclic ∧ g.Complete ∧ g.outputs = [g.root] := by
  have hquery : 0 < lookingBack.bodies.length := by decide +kernel
  obtain ⟨g, hgraph, -⟩ : ∃ g, lookingBack.graph 0 = .ok g ∧ g.root = 0 :=
    Except.exists_of_toOption (by decide +kernel)
  obtain ⟨-, -, hcomplete, houtputs, hacyclic⟩ := ordered_iff lookingBack_written hquery hgraph
  have hacyclic := hacyclic fun body _ => lookingBack_looksBack body
  exact ⟨lookingBack_written, hquery, lookingBack_looksBack, g, hgraph, hacyclic,
    hcomplete.2 hacyclic, houtputs.2 hacyclic⟩

/-- The alias `a2` of one query stands for the last source of another one, which its sources `a1`
and `a2` both read. -/
def readingAhead : Plan :=
  ({} : Plan).write
    [[.bind "a2" (.collection ⟨0, "c"⟩) none, .select [.field "x" (.ref ⟨0, ⟨"a2", ["x"]⟩⟩)]],
    [.openBody, .bind "x1" (.collection ⟨0, "c"⟩) none, .filter (.ref ⟨0, ⟨"a2", ["x"]⟩⟩),
      .select [.field "x" (.ref ⟨2, ⟨"x1", ["x"]⟩⟩)], .closeBody,
      .openBody, .bind "x2" (.collection ⟨0, "c"⟩) none, .filter (.ref ⟨0, ⟨"a2", ["x"]⟩⟩),
      .select [.field "x" (.ref ⟨3, ⟨"x2", ["x"]⟩⟩)], .closeBody,
      .bind "a1" (.query 2) none, .bind "a2" (.query 3) (some .inner),
      .on ⟨1, ⟨"a2", []⟩⟩ (.value (.bool true)),
      .select [.field "x" (.ref ⟨1, ⟨"a1", ["x"]⟩⟩)]]]

theorem readingAhead_written : readingAhead.Written :=
  written_write ⟨[], .first⟩ (by decide +kernel)

/-- The second query is accepted, but the reference to `a2.x` and the query that it stands for depend
on each other: neither they nor what is computed from them is listed. -/
theorem ordered_fails :
    readingAhead.Written ∧ 1 < readingAhead.bodies.length ∧ ∃ g, readingAhead.graph 1 = .ok g ∧
      ¬g.Acyclic ∧ ¬g.Complete ∧ g.outputs = [] := by
  obtain ⟨g, hgraph, hfacts⟩ : ∃ g, readingAhead.graph 1 = .ok g ∧
      (g.isComputedFrom 4 4, g.order.contains 4, g.size, g.outputs) = (true, false, 10, []) :=
    Except.exists_of_toOption (by decide +kernel)
  simp only [Prod.mk.injEq] at hfacts
  obtain ⟨hcycle, horder, hsize, houtputs⟩ := hfacts
  refine ⟨readingAhead_written, by decide +kernel, g, hgraph, fun hacyclic => ?_,
    fun hcomplete => ?_, houtputs⟩
  · rw [hacyclic 4] at hcycle
    cases hcycle
  · have hmem := hcomplete 4 (by rw [hsize]; decide)
    rw [List.contains_iff_mem.2 hmem] at horder
    cases horder

end Plan

end LiveQuery
