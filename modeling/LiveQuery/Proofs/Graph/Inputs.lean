import LiveQuery.Proofs.Engine.Output
import LiveQuery.Proofs.Graph.Acyclic

/-!
# What bodies are computed from

The node of an object is computed from the nodes of the bodies that the object makes use of: those
that a body holds, the one that a source reads, and those of the subqueries in an expression. So
when a body is listed, the bodies that it holds are listed before it.

**Results.** `Visits.feeds`: what has been walked to its end is computed from what it makes use of.
`Plan.held_before`: bodies are listed after those that they hold. `Plan.listed_of_acyclic`: all bodies
of a query are listed if its graph has no cycle.
-/

namespace LiveQuery

/-- The bodies that an object makes use of, or is. -/
def Identity.Uses (plan : Plan) : Identity → BodyId → Prop
  | .body id, sub => sub = id ∨ plan.Holds id sub
  | .source id, sub => ∃ body, ∃ source ∈ (plan.body body).sources,
      source.id = id ∧ source.origin = .query sub
  | .expr id, sub => ∃ body, ∃ e ∈ (plan.body body).occurring,
      e.id = id ∧ ∃ id', .subquery id' sub ∈ e.subterms

/-- The bodies that what is visited makes use of, or that are visited. -/
def Visited.Uses : Visited → BodyId → Prop
  | .body id _, sub => sub = id
  | .source _ t, sub => t.origin = .query sub
  | .sources _ ts, sub => ∃ t ∈ ts, t.origin = .query sub
  | .expr _ e, sub => ∃ id, .subquery id sub ∈ e.subterms
  | .exprs _ es, sub => ∃ e ∈ es, ∃ id, .subquery id sub ∈ e.subterms

namespace Sketch

/-- A node is computed from that of a body. -/
def FedBy (s : Sketch) (k : NodeId) (sub : BodyId) : Prop :=
  ∃ j : NodeId, s.nodes[j]?.map Node.kind = some (.selection sub) ∧
    Relation.ReflTransGen (fun i k => i ∈ Node.inputsIn s.nodes k) j k

/-- What has been met and is not active is computed from the bodies it makes use of. -/
def Fed (plan : Plan) (active : List Identity) (s : Sketch) : Prop :=
  ∀ id ∉ active, ∀ k, s.index.lookup id = some k → ∀ sub, id.Uses plan sub → s.FedBy k sub

variable {plan : Plan} {active : List Identity} {s s' : Sketch} {id : Identity} {k : NodeId}
  {sub : BodyId}

/-- Nodes keep their kinds and their inputs. -/
structure Deepens (s s' : Sketch) : Prop where
  kinds : ∀ (k : NodeId) (kind : NodeKind), s.nodes[k]?.map Node.kind = some kind →
    s'.nodes[k]?.map Node.kind = some kind
  inputs : ∀ k, Node.inputsIn s.nodes k ⊆ Node.inputsIn s'.nodes k

theorem Extends.deepens (h : s.Extends s') : s.Deepens s' where
  kinds := h.kinds
  inputs k := (h.inputs k).subset

theorem deepens_register (s : Sketch) (id : Identity) (node : NodeId) :
    s.Deepens (s.register id node) where
  kinds _ _ hk := hk
  inputs _ := List.Subset.refl _

theorem FedBy.deepen (h : s.FedBy k sub) (hgrow : s.Deepens s') : s'.FedBy k sub := by
  obtain ⟨j, hj, hreach⟩ := h
  exact ⟨j, hgrow.kinds _ _ hj,
    Relation.ReflTransGen.mono (fun i k hi => hgrow.inputs k hi) _ _ hreach⟩

theorem FedBy.tail (h : s.FedBy k sub) {d : NodeId} (hd : k ∈ Node.inputsIn s.nodes d) :
    s.FedBy d sub := by
  obtain ⟨j, hj, hreach⟩ := h
  exact ⟨j, hj, hreach.tail hd⟩

namespace Fed

theorem empty (plan : Plan) (active : List Identity) : ({} : Sketch).Fed plan active :=
  fun _ _ _ hk => by cases hk

/-- A node gets one more input. -/
theorem link (h : s.Fed plan active) (node : NodeId) {dependent : Option NodeId}
    (hdependent : ∀ d ∈ dependent, d < s.nodes.length) :
    (s.link node dependent).Fed plan active := by
  intro id hid k hk sub huses
  rw [index_link] at hk
  exact (h id hid k hk sub huses).deepen (extends_link s node hdependent).deepens

/-- An object is met that is active from then on. -/
theorem begin (h : s.Fed plan active) (hgrow : s.Deepens s')
    (hother : ∀ id' ≠ id, s'.index.lookup id' = s.index.lookup id') :
    s'.Fed plan (id :: active) := by
  intro id' hid' k hk sub huses
  obtain ⟨hne, hactive⟩ := not_or.1 (mt List.mem_cons.2 hid')
  exact (h id' hactive k (hother id' hne ▸ hk) sub huses).deepen hgrow

theorem create (h : s.Fed plan active) (new : s.index.lookup id = none) (kind : NodeKind)
    {dependent : Option NodeId} (hdependent : ∀ d ∈ dependent, d < s.nodes.length) :
    (s.create id kind dependent).Fed plan (id :: active) :=
  h.begin (extends_create kind new hdependent).deepens fun id' hne => by
    rw [lookup_create, if_neg hne]

/-- An active object has been walked to its end. -/
theorem finish (h : s.Fed plan (id :: active))
    (hid : ∀ k, s.index.lookup id = some k → ∀ sub, id.Uses plan sub → s.FedBy k sub) :
    s.Fed plan active := by
  intro id' hid' k hk sub huses
  by_cases heq : id' = id
  · subst heq
    exact hid k hk sub huses
  · exact h id' (List.not_mem_cons_of_ne_of_not_mem heq hid') k hk sub huses

/-- An expression has been walked to its end, with the bodies that occur in it. -/
theorem finishExpr (exprsApart : plan.ExprsApart) {owner : BodyId} {e : Expr}
    (he : e ∈ (plan.body owner).occurring) (h : s.Fed plan (.expr e.id :: active))
    (hk : s.index.lookup (.expr e.id) = some k)
    (huses : ∀ sub, (Visited.expr owner e).Uses sub → s.FedBy k sub) : s.Fed plan active := by
  refine h.finish fun k' hk' sub hsub => ?_
  obtain rfl : k = k' := Option.some.inj (hk.symm.trans hk')
  obtain ⟨body, e', he', hid, hsub⟩ := hsub
  obtain rfl := exprsApart _ (Plan.body_mem_of_occurring he') _ (Plan.body_mem_of_occurring he)
    e' he' e he hid
  exact huses sub hsub

/-- A source is met that makes use of just the body whose node it gets. -/
theorem addSource (sourcesApart : plan.SourcesApart) {owner : BodyId} {source : Source}
    (hsource : source ∈ (plan.body owner).sources) (h : s.Fed plan (.source source.id :: active))
    (hquery : ∀ k, s.index.lookup (.source source.id) = some k →
      ∀ sub, source.origin = .query sub → s.FedBy k sub) : s.Fed plan active := by
  refine h.finish fun k hk sub hsub => ?_
  obtain ⟨body, source', hsource', hid, horigin⟩ := hsub
  obtain rfl := sourcesApart _ (Plan.body_mem_bodies hsource') _ (Plan.body_mem_bodies hsource)
    source' hsource' source hsource hid
  exact hquery k hk sub horigin

end Fed

/-- A dependent has what is linked to it as an input. -/
theorem mem_inputsIn_link {node d : NodeId} (hd : d < s.nodes.length) :
    node ∈ Node.inputsIn (s.link node (some d)).nodes d := by
  rw [inputsIn_link s hd, if_pos rfl]
  exact List.mem_append_right _ List.mem_cons_self

theorem mem_inputsIn_create_self (id : Identity) (kind : NodeKind) {d : NodeId}
    (hd : d < s.nodes.length) :
    s.nodes.length ∈ Node.inputsIn (s.create id kind (some d)).nodes d :=
  mem_inputsIn_link (s := s.added id kind) (by rw [length_added]; exact Nat.lt_succ_of_lt hd)

theorem lookup_create_self (s : Sketch) (id : Identity) (kind : NodeKind)
    (dependent : Option NodeId) :
    (s.create id kind dependent).index.lookup id = some s.nodes.length := by
  rw [lookup_create, if_pos rfl]

end Sketch

/-! ## Visits -/

namespace Visited

variable {plan : Plan} {walk : Walk} {active : List Identity} {visited visited' : Visited}
  {dependent : Option NodeId} {s s' : Sketch}

/-- The node that the visit of a body gives is that of the body. -/
def Noted (s : Sketch) : Visited → Prop
  | .body id node => s.FedBy node id
  | _ => True

/-- What holds when a visit begins: only the very first one has no dependent. -/
structure Begun (plan : Plan) (active : List Identity) (visited : Visited)
    (dependent : Option NodeId) (s : Sketch) : Prop where
  belongs : visited.Belongs plan
  sound : s.Sound
  linked : ∀ d ∈ dependent, d < s.nodes.length
  first : dependent = none → s.nodes = []
  fed : s.Fed plan active

/-- What holds when a visit has ended: the dependent is computed from the bodies that are used. -/
structure Ended (plan : Plan) (active : List Identity) (visited : Visited)
    (dependent : Option NodeId) (s : Sketch) : Prop where
  fed : s.Fed plan active
  uses : ∀ d ∈ dependent, ∀ sub, visited.Uses sub → s.FedBy d sub
  noted : visited.Noted s

/-- An expression without arguments that is no subquery makes use of no body. -/
theorem not_uses_of_leaf {owner : BodyId} {e : Expr} (hchildren : e.children = [])
    (hself : e.isSubquery = false) (sub : BodyId) : ¬ (Visited.expr owner e).Uses sub := by
  rintro ⟨id, hmem⟩
  rw [Expr.subterms_eq, hchildren] at hmem
  rw [← List.mem_singleton.1 hmem] at hself
  cases hself

/-- An expression with arguments makes use of what these make use of. -/
theorem uses_of_children {owner : BodyId} {e : Expr} (hself : e.isSubquery = false) {sub : BodyId}
    (h : (Visited.expr owner e).Uses sub) : (Visited.exprs owner e.children).Uses sub := by
  obtain ⟨id, hmem⟩ := h
  rw [Expr.subterms_eq] at hmem
  rcases List.mem_cons.1 hmem with heq | hmem
  · rw [← heq] at hself
    cases hself
  · obtain ⟨arg, harg, hmem⟩ := Expr.mem_subtermsOf.1 hmem
    exact ⟨arg, harg, id, hmem⟩

namespace Begun

theorem of_belongs (h : visited.Begun plan active dependent s) (hbelongs : visited'.Belongs plan) :
    visited'.Begun plan active dependent s :=
  { h with belongs := hbelongs }

theorem grows (h : visited.Begun plan walk.active dependent s)
    (visit : Visits plan walk visited dependent s s') : s.Extends s' :=
  (visit.sound h.sound h.linked h.first).2.1

/-- After one visit another one begins for the same dependent. -/
theorem next {d : NodeId} (h : visited.Begun plan walk.active (some d) s)
    (visit : Visits plan walk visited (some d) s s') (hfed : s'.Fed plan walk.active)
    (hbelongs : visited'.Belongs plan) : visited'.Begun plan walk.active (some d) s' where
  belongs := hbelongs
  sound := (visit.sound h.sound h.linked h.first).1
  linked d' hd' := Nat.lt_of_lt_of_le (h.linked d' hd') (h.grows visit).length
  first := nofun
  fed := hfed

/-- An object is met, and what it is made of is visited for its node. -/
theorem create (h : visited.Begun plan active dependent s) {id : Identity}
    (new : s.index.lookup id = none) (kind : NodeKind)
    (hkind : ∀ body, kind = .selection body → id = .body body) (hbelongs : visited'.Belongs plan) :
    visited'.Begun plan (id :: active) (some s.nodes.length) (s.create id kind dependent) where
  belongs := hbelongs
  sound := h.sound.create new kind hkind h.linked h.first
  linked d hd := by
    cases hd
    simp
  first := nofun
  fed := h.fed.create new kind h.linked

/-- What is known is linked to one more dependent. -/
theorem link (h : visited.Begun plan active dependent s) {node : NodeId}
    (huses : ∀ sub, visited.Uses sub → s.FedBy node sub)
    (hnoted : visited.Noted (s.link node dependent)) :
    visited.Ended plan active dependent (s.link node dependent) where
  fed := h.fed.link node h.linked
  uses d hd sub hsub := by
    cases hd
    have hnode := (huses sub hsub).deepen (Sketch.extends_link s node h.linked).deepens
    exact hnode.tail (Sketch.mem_inputsIn_link (h.linked d rfl))
  noted := hnoted

end Begun

/-- A body has been walked to its end, with all that it holds. -/
theorem ended_body {id : BodyId} (hlinked : ∀ d ∈ dependent, d < s.nodes.length)
    (hext : (s.create (.body id) (.selection id) dependent).Extends s')
    (hfed : s'.Fed plan (.body id :: active))
    (hholds : ∀ sub, plan.Holds id sub → s'.FedBy s.nodes.length sub) :
    (Visited.body id s.nodes.length).Ended plan active dependent s' := by
  have hnode : s'.index.lookup (.body id) = some s.nodes.length :=
    hext.index _ _ (Sketch.lookup_create_self _ _ _ _)
  have hnoted : s'.FedBy s.nodes.length id := by
    refine ⟨_, hext.kinds _ _ ?_, .refl⟩
    rw [Sketch.kinds_create, if_pos rfl]
  refine ⟨hfed.finish fun k hk sub hsub => ?_, fun d hd sub hsub => ?_, hnoted⟩
  · obtain rfl : s.nodes.length = k := Option.some.inj (hnode.symm.trans hk)
    rcases hsub with rfl | hholds'
    · exact hnoted
    · exact hholds sub hholds'
  · cases hsub
    cases hd
    have hinput := Sketch.mem_inputsIn_create_self (.body id) (.selection id) (hlinked d rfl)
    exact hnoted.tail ((hext.inputs d).subset hinput)

/-- An expression has been walked to its end, with what it is made of. -/
theorem ended_expr (exprsApart : plan.ExprsApart) {owner : BodyId} {e : Expr} {d : NodeId}
    {kind : NodeKind} (he : e ∈ (plan.body owner).occurring) (hd : d < s.nodes.length)
    (hext : (s.create (.expr e.id) kind (some d)).Extends s')
    (hfed : s'.Fed plan (.expr e.id :: active))
    (huses : ∀ sub, (Visited.expr owner e).Uses sub → s'.FedBy s.nodes.length sub) :
    (Visited.expr owner e).Ended plan active (some d) s' := by
  have hnode := hext.index _ _ (Sketch.lookup_create_self s (.expr e.id) kind (some d))
  refine ⟨hfed.finishExpr exprsApart he hnode huses, fun d' hd' sub hsub => ?_, trivial⟩
  cases hd'
  exact (huses sub hsub).tail ((hext.inputs d).subset (Sketch.mem_inputsIn_create_self _ _ hd))

/-- A source of a query gets the node of the query. -/
theorem ended_query (sourcesApart : plan.SourcesApart) {owner sub : BodyId} {source : Source}
    {node : NodeId} (hsource : source ∈ (plan.body owner).sources)
    (horigin : source.origin = .query sub)
    (hbody : (Visited.body sub node).Ended plan active dependent s) :
    (Visited.source owner source).Ended plan active dependent
      (s.register (.source source.id) node) := by
  have hgrow := Sketch.deepens_register s (.source source.id) node
  have honly (sub' : BodyId) (h : source.origin = .query sub') : sub' = sub := by
    rw [horigin] at h
    cases h
    rfl
  have hbegun := hbody.fed.begin hgrow fun id' hne => by rw [Sketch.lookup_register, if_neg hne]
  refine ⟨hbegun.addSource sourcesApart hsource fun k hk sub' h => ?_,
    fun d hd sub' h => (hbody.uses d hd sub' (honly sub' h)).deepen hgrow, trivial⟩
  rw [Sketch.lookup_register, if_pos rfl] at hk
  cases hk
  cases honly sub' h
  exact hbody.noted.deepen hgrow

/-- The arguments of an expression are visited for its node. -/
theorem ended_children (exprsApart : plan.ExprsApart) {owner : BodyId} {e : Expr} {d : NodeId}
    {kind : NodeKind} (h : (Visited.expr owner e).Begun plan walk.active (some d) s)
    (new : s.index.lookup (.expr e.id) = none) (hkind : ∀ body, kind ≠ .selection body)
    (hself : e.isSubquery = false)
    (arguments : Visits plan (walk.inside (.expr e.id)) (.exprs owner e.children)
      (some s.nodes.length) (s.create (.expr e.id) kind (some d)) s')
    (ih : (Visited.exprs owner e.children).Begun plan (.expr e.id :: walk.active)
        (some s.nodes.length) (s.create (.expr e.id) kind (some d)) →
      (Visited.exprs owner e.children).Ended plan (.expr e.id :: walk.active)
        (some s.nodes.length) s') : (Visited.expr owner e).Ended plan walk.active (some d) s' := by
  have hcreated : (Visited.exprs owner e.children).Begun plan (.expr e.id :: walk.active)
      (some s.nodes.length) (s.create (.expr e.id) kind (some d)) :=
    h.create new kind (fun body hbody => absurd hbody (hkind body))
      fun _ harg => Body.occurring_of_child h.belongs harg
  exact ended_expr exprsApart h.belongs (h.linked d rfl) (hcreated.grows arguments)
    (ih hcreated).fed fun sub hsub => (ih hcreated).uses _ rfl sub (uses_of_children hself hsub)

/-- Two visits for the same dependent, one after the other. -/
theorem ended_both {first rest : Visited} {d : NodeId} {s₁ : Sketch}
    (h : visited.Begun plan walk.active (some d) s) (visit : Visits plan walk first (some d) s s₁)
    (others : Visits plan walk rest (some d) s₁ s') (hfirst : first.Belongs plan)
    (hrest : rest.Belongs plan)
    (ihFirst : first.Begun plan walk.active (some d) s →
      first.Ended plan walk.active (some d) s₁)
    (ihOthers : rest.Begun plan walk.active (some d) s₁ →
      rest.Ended plan walk.active (some d) s')
    (huses : ∀ sub, visited.Uses sub → first.Uses sub ∨ rest.Uses sub)
    (hnoted : visited.Noted s') : visited.Ended plan walk.active (some d) s' := by
  have hended := ihFirst (h.of_belongs hfirst)
  have hnext : rest.Begun plan walk.active (some d) s₁ :=
    (h.of_belongs hfirst).next visit hended.fed hrest
  have hlast := ihOthers hnext
  refine ⟨hlast.fed, fun d' hd' sub hsub => ?_, hnoted⟩
  rcases huses sub hsub with hsub | hsub
  · exact (hended.uses d' hd' sub hsub).deepen (hnext.grows others).deepens
  · exact hlast.uses d' hd' sub hsub

end Visited

/-- A visit leaves what is visited computed from the bodies that it makes use of. -/
theorem Visits.feeds {plan : Plan} {walk : Walk} {visited : Visited} {dependent : Option NodeId}
    {s s' : Sketch} (h : Visits plan walk visited dependent s s')
    (sourcesApart : plan.SourcesApart) (exprsApart : plan.ExprsApart)
    (hbegun : visited.Begun plan walk.active dependent s) :
    visited.Ended plan walk.active dependent s' := by
  induction h with
  | @knownBody walk id node dependent s known inactive =>
      have hnode := hbegun.fed _ inactive node known id (.inl rfl)
      refine hbegun.link (fun sub hsub => ?_)
        (hnode.deepen (Sketch.extends_link s node hbegun.linked).deepens)
      cases hsub
      exact hnode
  | @newBody walk id dependent s s₁ s₂ new sources exprs joins ihSources ihExprs =>
      have hcreated : (Visited.sources id (plan.body id).sources).Begun plan _ _ _ :=
        hbegun.create new (.selection id) (fun _ h => by cases h; rfl) fun _ ht => ht
      have hsources := ihSources hcreated
      have hnext : (Visited.exprs id (plan.body id).expressions).Begun plan _ _ _ :=
        hcreated.next sources hsources.fed
          fun _ he => (plan.body id).expressions_subset_occurring he
      have hexprs := ihExprs hnext
      refine Visited.ended_body hbegun.linked
        ((hcreated.grows sources).trans (hnext.grows exprs)) hexprs.fed fun sub hholds => ?_
      cases hholds with
      | @source source mem origin =>
          exact (hsources.uses _ rfl sub ⟨source, mem, origin⟩).deepen (hnext.grows exprs).deepens
      | @subquery id' mem =>
          obtain ⟨top, htop, hmem⟩ := List.mem_flatMap.1 mem
          exact hexprs.uses _ rfl sub ⟨top, htop, id', hmem⟩
  | @knownSource walk owner source node dependent s known inactive =>
      exact hbegun.link (fun sub hsub => hbegun.fed _ inactive node known sub
        ⟨owner, source, hbegun.belongs, rfl, hsub⟩) trivial
  | @collection walk owner source ref dependent s new origin =>
      have hnone (sub : BodyId) : source.origin ≠ .query sub := by simp [origin]
      exact ⟨(hbegun.fed.create new _ hbegun.linked).addSource sourcesApart hbegun.belongs
        fun _ _ sub horigin => absurd horigin (hnone sub),
        fun _ _ sub hsub => absurd hsub (hnone sub), trivial⟩
  | query new origin body ih =>
      exact Visited.ended_query sourcesApart hbegun.belongs origin (ih (hbegun.of_belongs trivial))
  | noSources =>
      refine ⟨hbegun.fed, fun _ _ _ hsub => ?_, trivial⟩
      obtain ⟨_, hmem, _⟩ := hsub
      cases hmem
  | moreSources first others ihFirst ihOthers =>
      obtain ⟨hsource, hrest⟩ := List.forall_mem_cons.1 hbegun.belongs
      refine Visited.ended_both hbegun first others hsource hrest ihFirst ihOthers ?_ trivial
      rintro sub ⟨t, ht, hsub⟩
      rcases List.mem_cons.1 ht with rfl | ht
      · exact .inl hsub
      · exact .inr ⟨t, ht, hsub⟩
  | @knownExpr walk owner e node dependent s known inactive =>
      exact hbegun.link (fun sub hsub => hbegun.fed _ inactive node known sub
        ⟨owner, e, hbegun.belongs, rfl, hsub⟩) trivial
  | literal new =>
      exact Visited.ended_expr exprsApart hbegun.belongs (hbegun.linked _ rfl) (.refl _)
        (hbegun.fed.create new _ hbegun.linked)
        fun sub hsub => absurd hsub (Visited.not_uses_of_leaf rfl rfl sub)
  | @reference walk owner binder id path source dependent s s₁ new resolved origin ih =>
      have hnone (sub : BodyId) : ¬ (Visited.expr owner (.reference id path)).Uses sub :=
        Visited.not_uses_of_leaf rfl rfl sub
      have hcreated : (Visited.source binder source).Begun plan (.expr id :: walk.active) _ _ :=
        hbegun.create new (.expression (.reference id path)) (fun _ h => by cases h)
          (Plan.mem_of_resolve? resolved).1
      have hmet := Visited.ended_expr exprsApart hbegun.belongs (hbegun.linked _ rfl) (.refl _)
        hcreated.fed fun sub hsub => absurd hsub (hnone sub)
      exact ⟨(ih { hcreated with fed := hmet.fed }).fed,
        fun _ _ sub hsub => absurd hsub (hnone sub), trivial⟩
  | call new arguments ih =>
      exact Visited.ended_children exprsApart hbegun new (by simp) rfl arguments ih
  | aggregate new arguments ih =>
      exact Visited.ended_children exprsApart hbegun new (by simp) rfl arguments ih
  | @subquery walk owner id body node dependent s s₁ new selection ih =>
      have hcreated : (Visited.body body node).Begun plan (.expr id :: walk.active) _ _ :=
        hbegun.create new (.expression (.subquery id body)) (fun _ h => by cases h) trivial
      refine Visited.ended_expr exprsApart hbegun.belongs (hbegun.linked _ rfl)
        (hcreated.grows selection) (ih hcreated).fed fun sub hsub => ?_
      obtain ⟨id', hmem⟩ := hsub
      cases List.mem_singleton.1 hmem
      exact (ih hcreated).uses _ rfl _ rfl
  | noExprs =>
      refine ⟨hbegun.fed, fun _ _ _ hsub => ?_, trivial⟩
      obtain ⟨_, hmem, _⟩ := hsub
      cases hmem
  | moreExprs first others ihFirst ihOthers =>
      obtain ⟨he, hrest⟩ := List.forall_mem_cons.1 hbegun.belongs
      refine Visited.ended_both hbegun first others he hrest ihFirst ihOthers ?_ trivial
      rintro sub ⟨t, ht, hsub⟩
      rcases List.mem_cons.1 ht with rfl | ht
      · exact .inl hsub
      · exact .inr ⟨t, ht, hsub⟩

namespace Graph

variable {g : Graph} {query body : BodyId}

/-- The body is listed among those that are evaluated in order. -/
def Lists (g : Graph) (body : BodyId) : Prop :=
  body ∈ g.selections.map Prod.snd

theorem lists_iff : g.Lists body ↔ ∃ k ∈ g.order, (g.node k).kind = .selection body := by
  rw [Lists, Engine.bodies_selections, List.mem_filterMap]
  simp only [Graph.bodyOf?_eq_some_iff]

/-- What a listed node is computed from is listed before it. -/
theorem Rooted.mem_before_of_reach (h : g.Rooted query) {before after : List NodeId} {i k : NodeId}
    (horder : g.order = before ++ k :: after) (hreach : Relation.ReflTransGen g.Feeds i k) :
    i = k ∨ i ∈ before :=
  (Relation.reflTransGen_iff_eq_or_transGen.1 hreach).imp Eq.symm
    (Node.mem_before_of_transGen h.mirrored horder)

/-- No body is listed twice. -/
theorem Rooted.nodup_selections (h : g.Rooted query) : (g.selections.map Prod.snd).Nodup := by
  rw [Engine.bodies_selections]
  have hlisted : (g.order.filterMap g.bodyOf?).Pairwise (· ≠ ·) := by
    refine List.pairwise_filterMap.2 (h.nodup_order.imp_of_mem ?_)
    rintro k k' hk hk' hne body hbody _ hbody' rfl
    have hselects {k : NodeId} (hk : k ∈ g.order) (hbody : g.bodyOf? k = some body) :=
      h.selects k body (Node.lt_of_mem_inOrder h.mirrored hk) (bodyOf?_eq_some_iff.1 hbody)
    exact hne (Option.some.inj ((hselects hk hbody).symm.trans (hselects hk' hbody')))
  exact hlisted

end Graph

namespace Plan

variable {plan : Plan} {query body sub : BodyId} {g : Graph}

/-- The node of a body is computed from those of the bodies that it holds. -/
theorem exists_feeding_of_holds (accepted : plan.graph query = .ok g)
    (sourcesApart : plan.SourcesApart) (exprsApart : plan.ExprsApart) {k : NodeId} (hk : k ∈ g.order)
    (hkind : (g.node k).kind = .selection body) (holds : plan.Holds body sub) :
    ∃ j, (g.node j).kind = .selection sub ∧ Relation.ReflTransGen g.Feeds j k := by
  obtain ⟨s, hvisits, hnodes, hindex⟩ := visits_of_graph accepted
  have hrooted := rooted_of_graph accepted
  have hfed := (hvisits.feeds sourcesApart exprsApart
    { belongs := trivial
      sound := .empty
      linked := nofun
      first := fun _ => rfl
      fed := .empty plan [] }).fed
  have hlt := Node.lt_of_mem_inOrder hrooted.mirrored hk
  obtain ⟨j, hj, hreach⟩ := hfed (.body body) List.not_mem_nil k
    (hindex ▸ hrooted.selects k body hlt hkind) sub (.inr holds)
  rw [← hnodes] at hj hreach
  refine ⟨j, ?_, hreach⟩
  obtain ⟨node, hnode, hselects⟩ := Option.map_eq_some_iff.1 hj
  rw [Graph.node, List.getD_eq_getElem?_getD, hnode]
  exact hselects

/-- The bodies that a listed body holds are listed before it. -/
theorem held_before (accepted : plan.graph query = .ok g) (sourcesApart : plan.SourcesApart)
    (exprsApart : plan.ExprsApart) {before after : List BodyId}
    (horder : g.selections.map Prod.snd = before ++ body :: after)
    (reach : Relation.ReflTransGen plan.Holds query body) (holds : plan.Holds body sub) :
    sub ∈ before := by
  rw [Engine.bodies_selections] at horder
  obtain ⟨front, rest, hsplit, hfront, hrest⟩ := List.filterMap_eq_append_iff.1 horder
  obtain ⟨between, k, back, rfl, hbetween, hk, -⟩ := List.filterMap_eq_cons_iff.1 hrest
  have hkind := Graph.bodyOf?_eq_some_iff.1 hk
  rw [← List.append_assoc] at hsplit
  have hlisted : k ∈ g.order := by
    rw [hsplit]
    exact List.mem_append_right _ List.mem_cons_self
  obtain ⟨j, hj, hfeeds⟩ :=
    exists_feeding_of_holds accepted sourcesApart exprsApart hlisted hkind holds
  have hsub := Graph.bodyOf?_eq_some_iff.2 hj
  rcases (rooted_of_graph accepted).mem_before_of_reach hsplit hfeeds with rfl | hj
  · -- a body does not hold itself
    obtain rfl := Option.some.inj (hk.symm.trans hsub)
    have hground := (grounded_of_graph accepted sourcesApart exprsApart).reach reach
    exact absurd (.single holds) hground.not_cyclic
  · rcases List.mem_append.1 hj with hj | hj
    · rw [← hfront]
      exact List.mem_filterMap.2 ⟨j, hj, hsub⟩
    · cases (hbetween j hj).symm.trans hsub

/-- The bodies that a listed body holds are listed. -/
theorem listed_of_holds (accepted : plan.graph query = .ok g) (sourcesApart : plan.SourcesApart)
    (exprsApart : plan.ExprsApart) (hbody : g.Lists body) (holds : plan.Holds body sub) :
    g.Lists sub := by
  obtain ⟨k, hk, hkind⟩ := Graph.lists_iff.1 hbody
  obtain ⟨j, hj, hreach⟩ := exists_feeding_of_holds accepted sourcesApart exprsApart hk hkind holds
  obtain ⟨before, after, horder⟩ := List.append_of_mem hk
  refine Graph.lists_iff.2 ⟨j, ?_, hj⟩
  rw [horder]
  rcases (rooted_of_graph accepted).mem_before_of_reach horder hreach with rfl | hmem
  · exact List.mem_append_right _ List.mem_cons_self
  · exact List.mem_append_left _ hmem

/-- All bodies of a query whose graph has no cycle are listed. -/
theorem listed_of_acyclic (accepted : plan.graph query = .ok g) (sourcesApart : plan.SourcesApart)
    (exprsApart : plan.ExprsApart) (acyclic : g.Acyclic)
    (reach : Relation.ReflTransGen plan.Holds query body) : g.Lists body := by
  induction reach with
  | refl =>
      have hrooted := rooted_of_graph accepted
      exact Graph.lists_iff.2
        ⟨g.root, hrooted.complete_iff.2 acyclic _ (root_lt_of_graph accepted), hrooted.root_kind⟩
  | tail _ holds ih => exact listed_of_holds accepted sourcesApart exprsApart ih holds

end Plan

end LiveQuery
