import LiveQuery.Graph.Walk
import LiveQuery.Proofs.Graph.Listing
import LiveQuery.Proofs.Plan.Unfolding

/-!
# Checked queries

A check goes through the expressions of a body, clause by clause, and on to the bodies it holds. It
checks no body twice and never gets to the depth where it would give up, so all bodies below a query
that passes the check are valid. What becomes of a body does not depend on where it is met first: if
all bodies below a query are valid, the check finds nothing wrong.

**Results.** `Plan.validate_iff`: a query passes the check just if all bodies below it are regular.
`Plan.valid_of_graph`: the bodies of an accepted query are valid.
-/

namespace LiveQuery

/-- Whether a function has a number of arguments that it accepts. -/
def Expr.hasArity : Expr → Bool
  | .call _ function args => function.arity.accepts args.length
  | .aggregate _ function args => function.arity.accepts args.length
  | _ => true

/-- An expression that may stand in a clause, or there within an aggregate. -/
structure Expr.ValidIn (clause : Clause) (within : Bool) (e : Expr) : Prop where
  arity : ∀ x ∈ e.subterms, x.hasArity = true
  placed : ∀ x ∈ e.subterms, x.isAggregate = true →
    within = false ∧ clause.allowsAggregates = true
  apart : ∀ x ∈ e.subterms, x.isAggregate = true →
    ∀ y ∈ subtermsOf x.children, y.isAggregate = false

/-- A body whose expressions may stand in their clauses, and that groups if it has conditions on
groups. -/
structure Body.Valid (body : Body) : Prop where
  clauses : ∀ entry ∈ body.clauses, entry.1.ValidIn entry.2 false
  having : body.having.isSome = true → body.groupBy.isSome = true

/-- The expressions of a body that are neither selected nor conditions on groups. -/
def Body.rowExprs (body : Body) : List Expr :=
  body.joinExprs ++ body.filter.toList ++ body.groupExprs ++ body.orderTerms.map OrderTerm.expr

/-- A body with conditions on groups groups, its functions get a number of arguments that they
accept, and aggregates stand in the selection and in conditions on groups, none inside another. What
stands in the bodies of subqueries is none of its concern. -/
structure Body.Regular (body : Body) : Prop where
  having : body.having.isSome = true → body.groupBy.isSome = true
  arity : ∀ e ∈ body.occurring, e.hasArity = true
  placed : ∀ e ∈ body.rowExprs, e.containsAggregate = false
  apart : ∀ e ∈ body.occurring, e.isAggregate = true →
    ∀ arg ∈ e.children, arg.containsAggregate = false

namespace Expr.ValidIn

variable {clause : Clause} {within : Bool} {e arg : Expr}

/-- An expression may stand where its arguments may. -/
theorem of_children (harity : e.hasArity = true)
    (hself : e.isAggregate = true → (within = false ∧ clause.allowsAggregates = true) ∧
      ∀ y ∈ subtermsOf e.children, y.isAggregate = false)
    (hchildren : ∀ arg ∈ e.children, arg.ValidIn clause within) : e.ValidIn clause within := by
  have hbelow : ∀ x ∈ subtermsOf e.children, ∃ arg ∈ e.children, x ∈ arg.subterms := fun x hx =>
    mem_subtermsOf.1 hx
  refine ⟨?_, ?_, ?_⟩ <;> rw [subterms_eq, List.forall_mem_cons]
  · refine ⟨harity, fun x hx => ?_⟩
    obtain ⟨arg, harg, hx⟩ := hbelow x hx
    exact (hchildren arg harg).arity x hx
  · refine ⟨fun hagg => (hself hagg).1, fun x hx => ?_⟩
    obtain ⟨arg, harg, hx⟩ := hbelow x hx
    exact (hchildren arg harg).placed x hx
  · refine ⟨fun hagg => (hself hagg).2, fun x hx => ?_⟩
    obtain ⟨arg, harg, hx⟩ := hbelow x hx
    exact (hchildren arg harg).apart x hx

/-- An expression without arguments may stand anywhere, but for an aggregate. -/
theorem leaf (harity : e.hasArity = true) (hagg : e.isAggregate = false)
    (hchildren : e.children = []) : e.ValidIn clause within :=
  of_children harity (fun h => by rw [hagg] at h; cases h) fun arg harg => by
    rw [hchildren] at harg
    cases harg

theorem no_aggregate (h : e.ValidIn clause true) : ∀ x ∈ e.subterms, x.isAggregate = false := by
  intro x hx
  by_contra hagg
  cases (h.placed x hx (by simpa using hagg)).1

/-- What may stand within an aggregate may stand outside of it. -/
theorem outside (h : e.ValidIn clause true) (within : Bool) : e.ValidIn clause within where
  arity := h.arity
  placed x hx hagg := by
    rw [h.no_aggregate x hx] at hagg
    cases hagg
  apart := h.apart

/-- What is below an expression may stand where it may. -/
theorem below (h : e.ValidIn clause within) (harg : arg ∈ e.children) : arg.ValidIn clause within := by
  have hsub : arg.subterms ⊆ e.subterms := by
    refine subset_subterms e ?_
    rw [subterms_eq]
    exact List.mem_cons_of_mem _ (mem_subtermsOf.2 ⟨arg, harg, arg.self_mem_subterms⟩)
  exact ⟨fun x hx => h.arity x (hsub hx), fun x hx => h.placed x (hsub hx),
    fun x hx => h.apart x (hsub hx)⟩

/-- The arguments of an aggregate may stand within one. -/
theorem inside (h : e.ValidIn clause within) (hagg : e.isAggregate = true) (harg : arg ∈ e.children) :
    arg.ValidIn clause true where
  arity := (h.below harg).arity
  placed x hx hx' := by
    rw [h.apart e e.self_mem_subterms hagg x (mem_subtermsOf.2 ⟨arg, harg, hx⟩)] at hx'
    cases hx'
  apart := (h.below harg).apart

end Expr.ValidIn

theorem Expr.containsAggregate_eq_false {e : Expr} :
    e.containsAggregate = false ↔ ∀ x ∈ e.subterms, x.isAggregate = false := by
  simp only [containsAggregate, List.any_eq_false, Bool.not_eq_true]

theorem Plan.exists_clause {body : Body} {e : Expr} (h : e ∈ body.expressions) :
    ∃ clause, (e, clause) ∈ body.clauses := by
  simp only [Body.expressions, List.mem_append, List.mem_map] at h
  simp only [Body.clauses, List.mem_append, List.mem_map]
  rcases h with ((((he | he) | he) | he) | he) | ⟨t, ht, rfl⟩
  · exact ⟨.select, by simp [he]⟩
  · exact ⟨.join, by simp [he]⟩
  · exact ⟨.filter, by simpa using he⟩
  · exact ⟨.groupBy, by simp [he]⟩
  · exact ⟨.having, by simpa using he⟩
  · exact ⟨.orderBy, .inr ⟨t, ht, rfl⟩⟩

namespace Body

variable {body : Body} {e : Expr}

/-- The clauses in which aggregates may not stand are those of the expressions over rows. -/
theorem mem_rowExprs :
    e ∈ body.rowExprs ↔ ∃ clause, (e, clause) ∈ body.clauses ∧ clause.allowsAggregates = false := by
  simp only [rowExprs, clauses, List.mem_append, List.mem_map, Prod.mk.injEq]
  constructor
  · rintro (((he | he) | he) | ⟨t, ht, rfl⟩)
    · exact ⟨.join, by simp [he], rfl⟩
    · exact ⟨.filter, by simp [he], rfl⟩
    · exact ⟨.groupBy, by simp [he], rfl⟩
    · exact ⟨.orderBy, .inr ⟨t, ht, rfl, rfl⟩, rfl⟩
  · rintro ⟨clause, ((((⟨_, he, rfl, rfl⟩ | ⟨_, he, rfl, rfl⟩) | ⟨_, he, rfl, rfl⟩)
      | ⟨_, he, rfl, rfl⟩) | ⟨_, he, rfl, rfl⟩) | ⟨t, ht, rfl, rfl⟩, hrow⟩
    · cases hrow
    · exact .inl (.inl (.inl he))
    · exact .inl (.inl (.inr he))
    · exact .inl (.inr he)
    · cases hrow
    · exact .inr ⟨t, ht, rfl⟩

/-- The clauses are as they should be just if the body as a whole is. -/
theorem valid_iff_regular : body.Valid ↔ body.Regular := by
  constructor
  · intro h
    have hoccurs : ∀ x ∈ body.occurring, ∃ entry ∈ body.clauses,
        entry.1.ValidIn entry.2 false ∧ x ∈ entry.1.subterms := fun x hx => by
      obtain ⟨top, htop, hx⟩ := List.mem_flatMap.1 hx
      obtain ⟨clause, hclause⟩ := Plan.exists_clause htop
      exact ⟨_, hclause, h.clauses _ hclause, hx⟩
    refine ⟨h.having, fun x hx => ?_, fun e he => ?_, fun x hx hagg arg harg => ?_⟩
    · obtain ⟨entry, _, hvalid, hx⟩ := hoccurs x hx
      exact hvalid.arity x hx
    · obtain ⟨clause, hclause, hrow⟩ := mem_rowExprs.1 he
      refine Expr.containsAggregate_eq_false.2 fun x hx => ?_
      by_contra hagg
      have hallowed := ((h.clauses _ hclause).placed x hx (by simpa using hagg)).2
      rw [hrow] at hallowed
      cases hallowed
    · obtain ⟨entry, _, hvalid, hx⟩ := hoccurs x hx
      exact Expr.containsAggregate_eq_false.2 fun y hy =>
        hvalid.apart x hx hagg y (Expr.mem_subtermsOf.2 ⟨arg, harg, hy⟩)
  · refine fun h => ⟨fun entry hentry => ?_, h.having⟩
    have hoccurs : ∀ x ∈ entry.1.subterms, x ∈ body.occurring := fun x hx =>
      List.mem_flatMap.2 ⟨entry.1, Plan.mem_expressions_of_clauses hentry, hx⟩
    refine ⟨fun x hx => h.arity x (hoccurs x hx), fun x hx hagg => ⟨rfl, ?_⟩,
      fun x hx hagg y hy => ?_⟩
    · by_contra hrow
      have hnone := h.placed _ (mem_rowExprs.2 ⟨entry.2, hentry, by simpa using hrow⟩)
      rw [Expr.containsAggregate_eq_false.1 hnone x hx] at hagg
      cases hagg
    · obtain ⟨arg, harg, hy⟩ := Expr.mem_subtermsOf.1 hy
      exact Expr.containsAggregate_eq_false.1 (h.apart x (hoccurs x hx) hagg arg harg) y hy

end Body

namespace Plan

/-- A body of the plan has been checked; there is nothing to check in any other one. -/
def Known (plan : Plan) (seen : List BodyId) (id : BodyId) : Prop :=
  id < plan.bodies.length → id ∈ seen

/-- At most a given number of the bodies of the plan have not been checked. -/
def Lacks (plan : Plan) (n : Nat) (seen : List BodyId) : Prop :=
  (List.range plan.bodies.length).countP (fun id => decide (id ∉ seen)) ≤ n

/-- The bodies that have been checked since others were are valid, and the bodies that they hold
have been checked as well. -/
structure Checks (plan : Plan) (seen seen' : List BodyId) : Prop where
  kept : seen ⊆ seen'
  valid : ∀ b ∈ seen', b ∉ seen → (plan.body b).Valid
  closed : ∀ b ∈ seen', b ∉ seen → ∀ sub, plan.Holds b sub → plan.Known seen' sub

theorem Known.mono {plan : Plan} {seen seen' : List BodyId} {id : BodyId} (h : plan.Known seen id)
    (hsub : seen ⊆ seen') : plan.Known seen' id :=
  fun hid => hsub (h hid)

namespace Lacks

variable {plan : Plan} {n : Nat} {seen seen' : List BodyId} {id : BodyId}

theorem all (plan : Plan) (seen : List BodyId) : plan.Lacks plan.depth seen :=
  Nat.le_trans List.countP_le_length (Nat.le_of_eq List.length_range)

theorem mono (h : plan.Lacks n seen) (hsub : seen ⊆ seen') : plan.Lacks n seen' :=
  Nat.le_trans (List.countP_mono_left fun _ _ hnew => by
    simp only [decide_eq_true_eq] at hnew ⊢
    exact fun hmem => hnew (hsub hmem)) h

/-- One body more has been checked. -/
theorem cons (h : plan.Lacks (n + 1) seen) (hid : id < plan.bodies.length) (hnew : id ∉ seen) :
    plan.Lacks n (id :: seen) := by
  refine Nat.le_of_add_le_add_right (b := 1) (Nat.le_trans (Nat.le_of_eq ?_) h)
  rw [← List.count_eq_one_of_mem List.nodup_range (List.mem_range.2 hid)]
  exact (Node.Listing.countP_cons_done hnew).symm

theorem known (h : plan.Lacks 0 seen) (id : BodyId) : plan.Known seen id := fun hid => by
  simpa using List.countP_eq_zero.1 (Nat.le_zero.1 h) id (List.mem_range.2 hid)

end Lacks

namespace Checks

variable {plan : Plan} {seen seen' seen'' : List BodyId}

theorem refl (plan : Plan) (seen : List BodyId) : plan.Checks seen seen where
  kept := List.Subset.refl seen
  valid _ hb hnew := absurd hb hnew
  closed _ hb hnew := absurd hb hnew

theorem trans (h : plan.Checks seen seen') (h' : plan.Checks seen' seen'') :
    plan.Checks seen seen'' where
  kept := List.Subset.trans h.kept h'.kept
  valid b hb hnew := by
    by_cases hmem : b ∈ seen'
    · exact h.valid b hmem hnew
    · exact h'.valid b hb hmem
  closed b hb hnew sub hholds := by
    by_cases hmem : b ∈ seen'
    · exact (h.closed b hmem hnew sub hholds).mono h'.kept
    · exact h'.closed b hb hmem sub hholds

end Checks

/-- A check that checks a body and all that it holds, when at most a given number of bodies are
left. -/
def Sound (plan : Plan) (n : Nat) (check : BodyId → List BodyId → Checked) : Prop :=
  ∀ id seen seen', plan.Lacks n seen → check id seen = .ok seen' →
    plan.Checks seen seen' ∧ plan.Known seen' id

section

variable {plan : Plan} {n : Nat} {check : BodyId → List BodyId → Checked}

mutual

theorem checks_expr (hcheck : plan.Sound n check) {clause : Clause} {within : Bool}
    {seen seen' : List BodyId} (hlacks : plan.Lacks n seen) (e : Expr)
    (h : checkExpr check clause within seen e = .ok seen') :
    plan.Checks seen seen' ∧ e.ValidIn clause within ∧
      ∀ id sub, .subquery id sub ∈ e.subterms → plan.Known seen' sub := by
  match e with
  | .literal id value =>
      cases h
      exact ⟨.refl plan _, .leaf rfl rfl rfl, fun id' sub hmem => by cases List.mem_singleton.1 hmem⟩
  | .reference id path =>
      cases h
      exact ⟨.refl plan _, .leaf rfl rfl rfl, fun id' sub hmem => by cases List.mem_singleton.1 hmem⟩
  | .subquery id body =>
      obtain ⟨hchecks, hbody⟩ := hcheck _ _ _ hlacks h
      exact ⟨hchecks, .leaf rfl rfl rfl, fun id' sub hmem => by
        cases List.mem_singleton.1 hmem
        exact hbody⟩
  | .call id function args =>
      unfold checkExpr at h
      split at h
      next harity =>
        obtain ⟨hchecks, hargs, hsubs⟩ := checks_exprs hcheck hlacks args h
        exact ⟨hchecks, .of_children harity (fun hagg => by cases hagg) hargs,
          fun id' sub hmem => hsubs id' sub ((List.mem_cons.1 hmem).resolve_left nofun)⟩
      next => cases h
  | .aggregate id function args =>
      unfold checkExpr at h
      split at h
      · cases h
      next houtside =>
        split at h
        · cases h
        next hallowed =>
          split at h
          next harity =>
            obtain ⟨hchecks, hargs, hsubs⟩ := checks_exprs hcheck hlacks args h
            refine ⟨hchecks, .of_children harity (fun _ => ⟨⟨by simpa using houtside,
              by simpa using hallowed⟩, fun y hy => ?_⟩) fun arg harg => (hargs arg harg).outside _,
              fun id' sub hmem => hsubs id' sub ((List.mem_cons.1 hmem).resolve_left nofun)⟩
            obtain ⟨arg, harg, hy⟩ := Expr.mem_subtermsOf.1 hy
            exact (hargs arg harg).no_aggregate y hy
          next => cases h

theorem checks_exprs (hcheck : plan.Sound n check) {clause : Clause} {within : Bool}
    {seen seen' : List BodyId} (hlacks : plan.Lacks n seen) (es : List Expr)
    (h : checkExprs check clause within seen es = .ok seen') :
    plan.Checks seen seen' ∧ (∀ e ∈ es, e.ValidIn clause within) ∧
      ∀ id sub, .subquery id sub ∈ Expr.subtermsOf es → plan.Known seen' sub := by
  match es with
  | [] =>
      cases h
      exact ⟨.refl plan _, fun _ he => absurd he List.not_mem_nil, fun _ _ hmem => by cases hmem⟩
  | e :: rest =>
      unfold checkExprs at h
      split at h
      · cases h
      next seen₁ hfirst =>
        obtain ⟨hchecks, hvalid, hsubs⟩ := checks_expr hcheck hlacks e hfirst
        obtain ⟨hchecks', hvalid', hsubs'⟩ :=
          checks_exprs hcheck (hlacks.mono hchecks.kept) rest h
        refine ⟨hchecks.trans hchecks', List.forall_mem_cons.2 ⟨hvalid, hvalid'⟩,
          fun id sub hmem => ?_⟩
        rcases List.mem_append.1 hmem with hmem | hmem
        · exact (hsubs id sub hmem).mono hchecks'.kept
        · exact hsubs' id sub hmem

end

theorem checks_clauses (hcheck : plan.Sound n check) {seen seen' : List BodyId}
    (hlacks : plan.Lacks n seen) {clauses : List (Expr × Clause)}
    (h : checkClauses check seen clauses = .ok seen') :
    plan.Checks seen seen' ∧ (∀ entry ∈ clauses, entry.1.ValidIn entry.2 false) ∧
      ∀ entry ∈ clauses, ∀ id sub, .subquery id sub ∈ entry.1.subterms → plan.Known seen' sub := by
  induction clauses generalizing seen with
  | nil =>
      cases h
      exact ⟨.refl plan _, fun _ he => absurd he List.not_mem_nil,
        fun _ he => absurd he List.not_mem_nil⟩
  | cons entry rest ih =>
      unfold checkClauses at h
      split at h
      · cases h
      next seen₁ hfirst =>
        obtain ⟨hchecks, hvalid, hsubs⟩ := checks_expr hcheck hlacks entry.1 hfirst
        obtain ⟨hchecks', hvalid', hsubs'⟩ := ih (hlacks.mono hchecks.kept) h
        exact ⟨hchecks.trans hchecks', List.forall_mem_cons.2 ⟨hvalid, hvalid'⟩,
          List.forall_mem_cons.2 ⟨fun id sub hmem => (hsubs id sub hmem).mono hchecks'.kept, hsubs'⟩⟩

theorem checks_bodies (hcheck : plan.Sound n check) {seen seen' : List BodyId}
    (hlacks : plan.Lacks n seen) {bodies : List BodyId}
    (h : checkBodies check seen bodies = .ok seen') :
    plan.Checks seen seen' ∧ ∀ b ∈ bodies, plan.Known seen' b := by
  induction bodies generalizing seen with
  | nil =>
      cases h
      exact ⟨.refl plan _, fun _ hb => absurd hb List.not_mem_nil⟩
  | cons body rest ih =>
      unfold checkBodies at h
      split at h
      · cases h
      next seen₁ hfirst =>
        obtain ⟨hchecks, hbody⟩ := hcheck _ _ _ hlacks hfirst
        obtain ⟨hchecks', hrest⟩ := ih (hlacks.mono hchecks.kept) h
        exact ⟨hchecks.trans hchecks', List.forall_mem_cons.2 ⟨hbody.mono hchecks'.kept, hrest⟩⟩

end

/-- A body that is none of the plan is empty. -/
theorem body_of_length_le {plan : Plan} {id : BodyId} (h : plan.bodies.length ≤ id) :
    plan.body id = {} := by
  rw [body, List.getD_eq_getElem?_getD, List.getElem?_eq_none h]
  rfl

theorem not_holds_of_empty {plan : Plan} {id sub : BodyId} (h : plan.body id = {}) :
    ¬plan.Holds id sub := by
  rintro (⟨hsource, -⟩ | hoccurs)
  · rw [h] at hsource
    cases hsource
  · rw [h] at hoccurs
    cases hoccurs

theorem valid_empty : ({} : Body).Valid where
  clauses _ h := by cases h
  having := nofun

/-- There is nothing to check in an empty body. -/
theorem checks_empty {plan : Plan} {check : BodyId → List BodyId → Checked} {id : BodyId}
    (hempty : plan.body id = {}) {seen seen' : List BodyId}
    (h : plan.checkStep check id seen = .ok seen') : plan.Checks seen seen' := by
  unfold checkStep at h
  rw [hempty] at h
  dsimp only at h
  split at h
  · cases h
    exact .refl plan _
  · cases h
    have honly : ∀ b ∈ id :: seen, b ∉ seen → b = id := fun b hb hnew =>
      (List.mem_cons.1 hb).resolve_right hnew
    refine ⟨List.subset_cons_self _ _, fun b hb hnew => ?_, fun b hb hnew sub hholds => ?_⟩
    · rw [honly b hb hnew, hempty]
      exact valid_empty
    · rw [honly b hb hnew] at hholds
      exact absurd hholds (not_holds_of_empty hempty)

/-- A check that gives up on no body checks a body and all that it holds. -/
theorem Sound.step {plan : Plan} {n : Nat} {check : BodyId → List BodyId → Checked}
    (hcheck : plan.Sound n check) : plan.Sound (n + 1) (plan.checkStep check) := by
  intro id seen seen' hlacks h
  by_cases hid : id < plan.bodies.length
  swap
  · exact ⟨checks_empty (body_of_length_le (Nat.le_of_not_lt hid)) h, fun hlt => absurd hlt hid⟩
  unfold checkStep at h
  dsimp only at h
  split at h
  next hseen =>
    cases h
    exact ⟨.refl plan _, fun _ => List.contains_iff_mem.1 hseen⟩
  next hnew =>
    split at h
    · cases h
    next hhaving =>
      split at h
      · cases h
      next seen₁ hclauses =>
        have hlacks := hlacks.cons hid (by simpa using hnew)
        obtain ⟨hchecks, hvalid, hsubs⟩ := checks_clauses hcheck hlacks hclauses
        obtain ⟨hchecks', hbodies⟩ := checks_bodies hcheck (hlacks.mono hchecks.kept) h
        have hall := hchecks.trans hchecks'
        have hbody : (plan.body id).Valid :=
          ⟨hvalid, by simpa [Option.isSome_iff_ne_none] using hhaving⟩
        have hholds : ∀ sub, plan.Holds id sub → plan.Known seen' sub := by
          rintro sub (⟨hsource, horigin⟩ | hoccurs)
          · refine hbodies sub (List.mem_filterMap.2 ⟨_, hsource, ?_⟩)
            rw [horigin]
          · obtain ⟨top, htop, hmem⟩ := List.mem_flatMap.1 hoccurs
            obtain ⟨clause, hclause⟩ := exists_clause htop
            exact (hsubs _ hclause _ sub hmem).mono hchecks'.kept
        refine ⟨⟨fun b hb => hall.kept (List.mem_cons_of_mem _ hb), fun b hb hold => ?_,
          fun b hb hold => ?_⟩, fun _ => hall.kept List.mem_cons_self⟩
        · by_cases heq : b = id
          · exact heq ▸ hbody
          · exact hall.valid b hb (List.not_mem_cons_of_ne_of_not_mem heq hold)
        · by_cases heq : b = id
          · exact heq ▸ hholds
          · exact hall.closed b hb (List.not_mem_cons_of_ne_of_not_mem heq hold)

/-- The depth that a check gets is enough for the bodies that have not been checked. -/
theorem sound_checkBody (plan : Plan) (n : Nat) : plan.Sound n (plan.checkBody n) := by
  induction n with
  | zero =>
      intro id seen seen' hlacks h
      cases h
      exact ⟨.refl plan _, hlacks.known id⟩
  | succ n ih => exact ih.step

/-- What a query that passes the check leaves behind: bodies that are valid, closed under what
they hold. -/
theorem checks_of_validate {plan : Plan} {query : BodyId} (h : plan.validate query = .ok ()) :
    ∃ seen, plan.Checks [] seen ∧ plan.Known seen query := by
  unfold validate at h
  split at h
  · cases h
  next seen hseen => exact ⟨seen, plan.sound_checkBody _ _ _ _ (.all plan []) hseen⟩

/-- All bodies below a query that passes the check are valid. -/
theorem valid_of_graph {plan : Plan} {query body : BodyId} {g : Graph} (hwritten : plan.Written)
    (hquery : query < plan.bodies.length) (accepted : plan.graph query = .ok g)
    (hreach : Relation.ReflTransGen plan.Holds query body) : (plan.body body).Valid := by
  have hvalidated : plan.validate query = .ok () := by
    unfold graph at accepted
    split at accepted
    · cases accepted
    next hvalidated => exact hvalidated
  obtain ⟨seen, hchecks, hknown⟩ := checks_of_validate hvalidated
  have hbody : body ∈ seen := by
    induction hreach with
    | refl => exact hknown hquery
    | tail _ hholds ih =>
        exact hchecks.closed _ ih List.not_mem_nil _ hholds (hwritten.lt_of_holds hholds)
  exact hchecks.valid body hbody List.not_mem_nil

/-! ## Queries that pass -/

section

variable {check : BodyId → List BodyId → Checked}

mutual

/-- An expression that may stand in its clause passes if the bodies of its subqueries do. -/
theorem exists_checked_expr {clause : Clause} {within : Bool} (e : Expr)
    (hvalid : e.ValidIn clause within)
    (hcheck : ∀ id sub, .subquery id sub ∈ e.subterms → ∀ seen, ∃ seen', check sub seen = .ok seen')
    (seen : List BodyId) : ∃ seen', checkExpr check clause within seen e = .ok seen' := by
  match e with
  | .literal id value => exact ⟨seen, rfl⟩
  | .reference id path => exact ⟨seen, rfl⟩
  | .subquery id body => exact hcheck id body List.mem_cons_self seen
  | .call id function args =>
      have harity : function.arity.accepts args.length = true :=
        hvalid.arity _ (Expr.self_mem_subterms _)
      unfold checkExpr
      rw [if_pos harity]
      exact exists_checked_exprs args (fun arg harg => hvalid.below harg)
        (fun id sub hmem => hcheck id sub (List.mem_cons_of_mem _ hmem)) seen
  | .aggregate id function args =>
      obtain ⟨rfl, hallowed⟩ := hvalid.placed _ (Expr.self_mem_subterms _) rfl
      have harity : function.arity.accepts args.length = true :=
        hvalid.arity _ (Expr.self_mem_subterms _)
      unfold checkExpr
      rw [if_neg Bool.false_ne_true, hallowed, Bool.not_true, if_neg Bool.false_ne_true,
        if_pos harity]
      exact exists_checked_exprs args (fun arg harg => hvalid.inside rfl harg)
        (fun id sub hmem => hcheck id sub (List.mem_cons_of_mem _ hmem)) seen

theorem exists_checked_exprs {clause : Clause} {within : Bool} (es : List Expr)
    (hvalid : ∀ e ∈ es, e.ValidIn clause within)
    (hcheck : ∀ id sub, .subquery id sub ∈ Expr.subtermsOf es → ∀ seen,
      ∃ seen', check sub seen = .ok seen')
    (seen : List BodyId) : ∃ seen', checkExprs check clause within seen es = .ok seen' := by
  match es with
  | [] => exact ⟨seen, rfl⟩
  | e :: rest =>
      obtain ⟨hfirst, hrest⟩ := List.forall_mem_cons.1 hvalid
      obtain ⟨seen₁, hseen₁⟩ := exists_checked_expr e hfirst
        (fun id sub hmem => hcheck id sub (List.mem_append_left _ hmem)) seen
      unfold checkExprs
      rw [hseen₁]
      exact exists_checked_exprs rest hrest
        (fun id sub hmem => hcheck id sub (List.mem_append_right _ hmem)) seen₁

end

theorem exists_checked_clauses {clauses : List (Expr × Clause)}
    (hvalid : ∀ entry ∈ clauses, entry.1.ValidIn entry.2 false)
    (hcheck : ∀ entry ∈ clauses, ∀ id sub, .subquery id sub ∈ entry.1.subterms → ∀ seen,
      ∃ seen', check sub seen = .ok seen')
    (seen : List BodyId) : ∃ seen', checkClauses check seen clauses = .ok seen' := by
  induction clauses generalizing seen with
  | nil => exact ⟨seen, rfl⟩
  | cons entry rest ih =>
      obtain ⟨hfirst, hrest⟩ := List.forall_mem_cons.1 hvalid
      obtain ⟨hcheckFirst, hcheckRest⟩ := List.forall_mem_cons.1 hcheck
      obtain ⟨seen₁, hseen₁⟩ := exists_checked_expr entry.1 hfirst hcheckFirst seen
      unfold checkClauses
      rw [hseen₁]
      exact ih hrest hcheckRest seen₁

theorem exists_checked_bodies {bodies : List BodyId}
    (hcheck : ∀ b ∈ bodies, ∀ seen, ∃ seen', check b seen = .ok seen') (seen : List BodyId) :
    ∃ seen', checkBodies check seen bodies = .ok seen' := by
  induction bodies generalizing seen with
  | nil => exact ⟨seen, rfl⟩
  | cons b rest ih =>
      obtain ⟨hfirst, hrest⟩ := List.forall_mem_cons.1 hcheck
      obtain ⟨seen₁, hseen₁⟩ := hfirst seen
      unfold checkBodies
      rw [hseen₁]
      exact ih hrest seen₁

end

/-- Whatever has been checked before, a body passes if all bodies below it are valid. -/
theorem exists_checked_body {plan : Plan} (n : Nat) {id : BodyId}
    (hvalid : ∀ b, Relation.ReflTransGen plan.Holds id b → (plan.body b).Valid)
    (seen : List BodyId) : ∃ seen', plan.checkBody n id seen = .ok seen' := by
  induction n generalizing id seen with
  | zero => exact ⟨seen, rfl⟩
  | succ n ih =>
      have hbelow : ∀ sub, plan.Holds id sub → ∀ seen, ∃ seen', plan.checkBody n sub seen = .ok seen' :=
        fun sub hholds => ih fun b hreach => hvalid b (.head hholds hreach)
      obtain ⟨hclauses, hhaving⟩ := hvalid id .refl
      rw [checkBody_succ]
      unfold checkStep
      dsimp only
      split
      · exact ⟨seen, rfl⟩
      · rw [if_neg (by simpa [Option.isSome_iff_ne_none] using hhaving)]
        obtain ⟨seen₁, hseen₁⟩ := exists_checked_clauses hclauses (fun entry hentry id' sub hmem =>
          hbelow sub (.of_expression (mem_expressions_of_clauses hentry) hmem)) (id :: seen)
        rw [hseen₁]
        exact exists_checked_bodies (fun b hb => hbelow b (.of_queriedBodies hb)) seen₁

/-- A query passes the check just if all bodies below it are regular, also when bodies are shared or
hold one another in a circle. -/
theorem validate_iff (plan : Plan) (query : BodyId) :
    plan.validate query = .ok () ↔
      ∀ body, Relation.ReflTransGen plan.Holds query body → (plan.body body).Regular := by
  simp only [← Body.valid_iff_regular]
  constructor
  · intro h body hreach
    obtain ⟨seen, hchecks, hquery⟩ := checks_of_validate h
    have hknown : plan.Known seen body := by
      induction hreach with
      | refl => exact hquery
      | @tail outer sub _ hholds ih =>
          by_cases hlt : outer < plan.bodies.length
          · exact hchecks.closed outer (ih hlt) List.not_mem_nil sub hholds
          · exact absurd hholds (not_holds_of_empty (body_of_length_le (Nat.le_of_not_lt hlt)))
    by_cases hlt : body < plan.bodies.length
    · exact hchecks.valid body (hknown hlt) List.not_mem_nil
    · rw [body_of_length_le (Nat.le_of_not_lt hlt)]
      exact valid_empty
  · intro h
    obtain ⟨seen, hseen⟩ := exists_checked_body plan.depth h []
    rw [validate, hseen]

end Plan

end LiveQuery
