import LiveQuery.Proofs.Plan.Pool

/-!
# Plans that are written

A plan is written by calls on drafts, one query after another on the same plan. A call may use
what the caller holds: any expression that an earlier call has given it, any alias, and any body
there is, the bodies being written among them. So expressions and queries are shared freely; but
new ones get new numbers, and what is in a plan was made for it.

**Results.** `Plan.Written.exprsApart` and `Plan.Written.sourcesApart`: numbers tell the
expressions and the sources of a written plan apart. `Plan.Written.lt_of_holds`: its bodies
hold bodies of it.
-/

namespace LiveQuery

/-! ## Calls on drafts -/

/-- An operand that a caller can have who holds some expressions of a plan with a number of
bodies. -/
def Operand.Held (held : List Expr) (bodies : Nat) : Operand → Prop
  | .expr e => e ∈ held
  | .query body => body < bodies
  | .ref _ => True
  | .value _ => True

def SelectItem.operand : SelectItem → Operand
  | .field _ value => value
  | .spread value => value

namespace Draft

/-- A call on a draft. -/
inductive Call where
  | expression (operand : Operand)
  | call (function : Function) (args : List Operand)
  | callNamed (name : String) (args : List Operand)
  | aggregate (function : Aggregate) (args : List Operand)
  | freshAlias
  | bind (name : String) (origin : Origin) (join : Option JoinKind)
  | filter (cond : Operand)
  | on (proxy : Proxy) (cond : Operand)
  | onFields (proxy : Proxy) (fields : List (String × Operand))
  | openBody
  | closeBody
  | spread (proxy : Proxy)
  | select (items : List SelectItem)
  | selectValue (value : Operand)
  | groupBy (keys : List Operand)
  | having (cond : Operand)
  | orderBy (value : Operand) (direction : Direction)
  | limit (n : Nat)
  | offset (n : Nat)
  | distinct

namespace Call

/-- Makes a call, and gives the expressions that the caller gets for it. -/
def run : Call → Builder (List Expr)
  | expression operand => do return [← Builder.operand operand]
  | call function args => do return [← Builder.call function args]
  | callNamed name args => do return [← Builder.callNamed name args]
  | aggregate function args => do return [← Builder.aggregate function args]
  | freshAlias => do
      let _ ← Builder.freshAlias
      return []
  | bind name origin join => do
      let _ ← Builder.bind name origin join
      return []
  | filter cond => do
      Builder.filter cond
      return []
  | on proxy cond => do
      Builder.on proxy cond
      return []
  | onFields proxy fields => do
      Builder.onFields proxy fields
      return []
  | openBody => do
      Builder.openBody
      return []
  | closeBody => do
      let _ ← Builder.closeBody
      return []
  | spread proxy => do
      let _ ← Builder.spread proxy
      return []
  | select items => do
      Builder.select items
      return []
  | selectValue value => do
      Builder.selectValue value
      return []
  | groupBy keys => do
      Builder.groupBy keys
      return []
  | having cond => do
      Builder.having cond
      return []
  | orderBy value direction => do
      Builder.orderBy value direction
      return []
  | limit n => do
      Builder.limit n
      return []
  | offset n => do
      Builder.offset n
      return []
  | distinct => do
      Builder.distinct
      return []

def operands : Call → List Operand
  | expression operand => [operand]
  | call _ args => args
  | callNamed _ args => args
  | aggregate _ args => args
  | filter cond => [cond]
  | on _ cond => [cond]
  | onFields _ fields => fields.map Prod.snd
  | select items => items.map SelectItem.operand
  | selectValue value => [value]
  | groupBy keys => keys
  | having cond => [cond]
  | orderBy value _ => [value]
  | _ => []

def origin? : Call → Option Origin
  | bind _ origin _ => some origin
  | _ => none

/-- A caller can make a call who holds what it uses. -/
structure Held (call : Call) (held : List Expr) (bodies : Nat) : Prop where
  operands : ∀ operand ∈ call.operands, operand.Held held bodies
  origin : ∀ origin ∈ call.origin?, origin.Held bodies

end Call

/-- The drafts that calls lead to, with the expressions that the caller holds then. A query is
begun on the plan that the earlier ones have left. -/
inductive Written : List Expr → Draft → Prop
  | first : Written [] (Plan.openQuery {})
  | query {held : List Expr} {d : Draft} (before : Written held d) (closed : d.outer = []) :
      Written held d.plan.openQuery
  | call {held : List Expr} {d : Draft} (before : Written held d) (call : Call)
      (allowed : call.Held held d.plan.bodies.length) :
      Written ((call.run d).1 ++ held) (call.run d).2

end Draft

/-- A plan that calls have written. -/
def Plan.Written (plan : Plan) : Prop :=
  ∃ held d, Draft.Written held d ∧ d.plan = plan

/-! ## Calls that anybody can make -/

/-- Whether an operand is an alias or a value. -/
def Operand.isPlain : Operand → Bool
  | .ref _ => true
  | .value _ => true
  | _ => false

/-- Whether a source reads a collection or one of a number of bodies. -/
def Origin.isBelow (bodies : Nat) : Origin → Bool
  | .query body => body < bodies
  | .collection _ => true

namespace Draft

/-- Whether a call uses aliases and values only, besides the bodies there are. -/
def Call.isPlain (call : Call) (bodies : Nat) : Bool :=
  call.operands.all Operand.isPlain && call.origin?.all (Origin.isBelow bodies)

theorem Call.held_of_isPlain {call : Call} {held : List Expr} {bodies : Nat}
    (h : call.isPlain bodies = true) : call.Held held bodies := by
  obtain ⟨hoperands, horigin⟩ := Bool.and_eq_true_iff.1 h
  refine ⟨fun operand hmem => ?_, fun origin hmem => ?_⟩
  · have hplain := List.all_eq_true.1 hoperands operand hmem
    cases operand with
    | ref proxy => trivial
    | value value => trivial
    | expr e => cases hplain
    | query body => cases hplain
  · rw [Option.mem_def.1 hmem] at horigin
    cases origin with
    | query body => exact of_decide_eq_true (p := body < bodies) horigin
    | collection ref => trivial

/-- The draft that some calls lead to. -/
def follow (d : Draft) : List Call → Draft
  | [] => d
  | call :: rest => (call.run d).2.follow rest

/-- Whether all of some calls are plain. -/
def allows (d : Draft) : List Call → Bool
  | [] => true
  | call :: rest => call.isPlain d.plan.bodies.length && (call.run d).2.allows rest

theorem Written.follow {held : List Expr} {d : Draft} (h : Written held d) {calls : List Call}
    (hcalls : d.allows calls = true) : ∃ held', Written held' (d.follow calls) := by
  induction calls generalizing held d with
  | nil => exact ⟨held, h⟩
  | cons call rest ih =>
      obtain ⟨hplain, hrest⟩ := Bool.and_eq_true_iff.1 hcalls
      exact ih (h.call call (Call.held_of_isPlain hplain)) hrest

end Draft

namespace Plan

/-- The plan that queries lead to, each written by some calls. -/
def write (plan : Plan) : List (List Draft.Call) → Plan
  | [] => plan
  | calls :: rest => (plan.openQuery.follow calls).plan.write rest

/-- Whether all calls of some queries are plain, and leave no body open. -/
def allows (plan : Plan) : List (List Draft.Call) → Bool
  | [] => true
  | calls :: rest =>
      plan.openQuery.allows calls && (plan.openQuery.follow calls).outer.isEmpty
        && (plan.openQuery.follow calls).plan.allows rest

theorem written_write {plan : Plan} (hopen : ∃ held, Draft.Written held plan.openQuery)
    {calls : List Draft.Call} {rest : List (List Draft.Call)}
    (hqueries : plan.allows (calls :: rest) = true) : (plan.write (calls :: rest)).Written := by
  induction rest generalizing plan calls with
  | nil =>
      obtain ⟨hcalls, _⟩ := Bool.and_eq_true_iff.1 hqueries
      obtain ⟨held, hopen⟩ := hopen
      obtain ⟨held', hwritten⟩ := hopen.follow (Bool.and_eq_true_iff.1 hcalls).1
      exact ⟨held', _, hwritten, rfl⟩
  | cons next rest ih =>
      obtain ⟨hcalls, hrest⟩ := Bool.and_eq_true_iff.1 hqueries
      obtain ⟨hcalls, hclosed⟩ := Bool.and_eq_true_iff.1 hcalls
      obtain ⟨held, hopen⟩ := hopen
      obtain ⟨held', hwritten⟩ := hopen.follow hcalls
      exact ih ⟨held', hwritten.query (List.isEmpty_iff.1 hclosed)⟩ hrest

end Plan

/-! ## What a call adds -/

theorem Operand.Held.mono {held held' : List Expr} {bodies bodies' : Nat} {operand : Operand}
    (h : operand.Held held bodies) (hheld : held ⊆ held') (hbodies : bodies ≤ bodies') :
    operand.Held held' bodies' := by
  cases operand with
  | expr e => exact hheld h
  | query body => exact Nat.lt_of_lt_of_le h hbodies
  | ref proxy => trivial
  | value value => trivial

namespace Draft

/-- The plan of a draft draws from a pool that has grown and has some expressions in it; its
bodies may have become more. -/
def Draws (d : Draft) (pool : List Expr) (bodies : Nat) (made : List Expr) : Prop :=
  ∃ pool', pool ⊆ pool' ∧ made ⊆ pool' ∧ d.plan.DrawsFrom pool' ∧ bodies ≤ d.plan.bodies.length

namespace Draws

variable {d d' : Draft} {pool : List Expr} {bodies : Nat} {made : List Expr}

theorem of_same (h : d.plan.DrawsFrom pool) (hbodies : bodies ≤ d.plan.bodies.length)
    (hmade : made ⊆ pool) (hplan : d'.plan = d.plan) : d'.Draws pool bodies made :=
  ⟨pool, List.Subset.refl _, hmade, hplan ▸ h, hplan ▸ hbodies⟩

theorem weaken {pool₀ made₀ : List Expr} (h : d.Draws pool bodies made) (hpool : pool₀ ⊆ pool)
    (hmade : made₀ ⊆ made) : d.Draws pool₀ bodies made₀ := by
  obtain ⟨pool', hsub, hin, hdraws, hbodies⟩ := h
  exact ⟨pool', List.Subset.trans hpool hsub, List.Subset.trans hmade hin, hdraws, hbodies⟩

/-- A body is changed in its clauses, with expressions that there are. -/
theorem modifyBody (h : d.Draws pool bodies made) {f : Body → Body}
    (hexprs : ∀ body, (f body).expressions ⊆ made ++ body.expressions)
    (hsources : ∀ body, (f body).sources = body.sources) :
    (d.modifyBody f).Draws pool bodies made := by
  obtain ⟨pool', hsub, hin, hdraws, hbodies⟩ := h
  have hbody : ∀ body ∈ d.plan.bodies.modify d.scope.body f,
      ∃ old ∈ d.plan.bodies, body = old ∨ body = f old := by
    intro body hmem
    obtain ⟨k, hk⟩ := List.mem_iff_getElem?.1 hmem
    rw [List.getElem?_modify] at hk
    obtain ⟨old, hold, heq⟩ := Option.map_eq_some_iff.1 hk
    refine ⟨old, List.mem_of_getElem? hold, ?_⟩
    split at heq
    · exact .inr heq.symm
    · exact .inl heq.symm
  refine ⟨pool', hsub, hin, hdraws.setBodies (by simp) (fun body hmem => ?_)
    (fun body hmem source hsource => ?_), by simpa [Draft.modifyBody] using hbodies⟩
  · obtain ⟨old, hold, rfl | rfl⟩ := hbody body hmem
    · exact hdraws.expressions _ hold
    · exact List.Subset.trans (hexprs old) (List.append_subset.2 ⟨hin, hdraws.expressions old hold⟩)
  · obtain ⟨old, hold, rfl | rfl⟩ := hbody body hmem
    · exact ⟨_, hold, hsource⟩
    · exact ⟨old, hold, hsources old ▸ hsource⟩

end Draws

end Draft

namespace Builder

open Draft

variable {d : Draft} {pool : List Expr} {bodies : Nat}

/-! ## Expressions -/

theorem draws_literal (h : d.plan.DrawsFrom pool) (hbodies : bodies ≤ d.plan.bodies.length)
    (value : Scalar) : (literal value d).2.Draws pool bodies [(literal value d).1] :=
  ⟨_, List.subset_cons_self _ _, List.cons_subset_cons _ (List.nil_subset _),
    h.newExpr rfl (List.nil_subset _) (fun _ _ heq => by cases heq), hbodies⟩

theorem reference_run (proxy : Proxy) (d : Draft) :
    reference proxy d = match d.plan.references.lookup (proxy.body, proxy.path) with
      | some e => (e, d)
      | none =>
          let e := .reference d.plan.exprCount proxy.path
          (e, { d with plan := { d.plan with
            exprCount := d.plan.exprCount + 1
            references := ((proxy.body, proxy.path), e) :: d.plan.references } }) := by
  change (match d.plan.references.lookup (proxy.body, proxy.path) with
    | some e => _ | none => _ : Builder Expr) d = _
  cases d.plan.references.lookup (proxy.body, proxy.path) <;> rfl

theorem draws_reference (h : d.plan.DrawsFrom pool) (hbodies : bodies ≤ d.plan.bodies.length)
    (proxy : Proxy) : (reference proxy d).2.Draws pool bodies [(reference proxy d).1] := by
  rw [reference_run]
  split
  next e hlookup =>
    exact .of_same h hbodies
      (List.cons_subset.2 ⟨h.references _ (mem_of_lookup hlookup), List.nil_subset _⟩) rfl
  next =>
    have hnew := h.newExpr (e := .reference d.plan.exprCount proxy.path) rfl (List.nil_subset _)
      fun _ _ heq => by cases heq
    exact ⟨_, List.subset_cons_self _ _, List.cons_subset_cons _ (List.nil_subset _),
      hnew.setReferences (List.forall_mem_cons.2 ⟨List.mem_cons_self, hnew.references⟩), hbodies⟩

theorem subquery_run (body : BodyId) (d : Draft) :
    subquery body d = match d.plan.subqueries.lookup body with
      | some e => (e, d)
      | none =>
          let e := .subquery d.plan.exprCount body
          (e, { d with plan := { d.plan with
            exprCount := d.plan.exprCount + 1
            subqueries := (body, e) :: d.plan.subqueries } }) := by
  change (match d.plan.subqueries.lookup body with | some e => _ | none => _ : Builder Expr) d = _
  cases d.plan.subqueries.lookup body <;> rfl

theorem draws_subquery (h : d.plan.DrawsFrom pool) (hbodies : bodies ≤ d.plan.bodies.length)
    {body : BodyId} (hbody : body < bodies) :
    (subquery body d).2.Draws pool bodies [(subquery body d).1] := by
  rw [subquery_run]
  split
  next e hlookup =>
    exact .of_same h hbodies
      (List.cons_subset.2 ⟨h.subqueries _ (mem_of_lookup hlookup), List.nil_subset _⟩) rfl
  next =>
    have hnew := h.newExpr (e := .subquery d.plan.exprCount body) rfl (List.nil_subset _)
      fun _ _ heq => by
        cases heq
        exact Nat.lt_of_lt_of_le hbody hbodies
    exact ⟨_, List.subset_cons_self _ _, List.cons_subset_cons _ (List.nil_subset _),
      hnew.setSubqueries (List.forall_mem_cons.2 ⟨List.mem_cons_self, hnew.subqueries⟩), hbodies⟩

theorem draws_operand (h : d.plan.DrawsFrom pool) (hbodies : bodies ≤ d.plan.bodies.length)
    {arg : Operand} (hheld : arg.Held pool bodies) :
    (operand arg d).2.Draws pool bodies [(operand arg d).1] := by
  cases arg with
  | expr e => exact .of_same h hbodies (List.cons_subset.2 ⟨hheld, List.nil_subset _⟩) rfl
  | ref proxy => exact draws_reference h hbodies proxy
  | value value => exact draws_literal h hbodies value
  | query body => exact draws_subquery h hbodies hheld

theorem draws_operands (h : d.plan.DrawsFrom pool) (hbodies : bodies ≤ d.plan.bodies.length)
    {args : List Operand} (hheld : ∀ arg ∈ args, arg.Held pool bodies) :
    (operands args d).2.Draws pool bodies (operands args d).1 := by
  induction args generalizing d pool with
  | nil => exact .of_same h hbodies (List.nil_subset _) rfl
  | cons arg rest ih =>
      obtain ⟨hfirst, hrest⟩ := List.forall_mem_cons.1 hheld
      obtain ⟨pool₁, hsub₁, hin₁, hdraws₁, hbodies₁⟩ := draws_operand h hbodies hfirst
      obtain ⟨pool₂, hsub₂, hin₂, hdraws₂, hbodies₂⟩ := ih hdraws₁ hbodies₁
        fun arg harg => (hrest arg harg).mono hsub₁ (Nat.le_refl _)
      exact ⟨pool₂, List.Subset.trans hsub₁ hsub₂,
        List.cons_subset.2 ⟨hsub₂ (hin₁ List.mem_cons_self), hin₂⟩, hdraws₂, hbodies₂⟩

/-- An expression is made of operands. -/
theorem draws_newExpr_operands (h : d.plan.DrawsFrom pool)
    (hbodies : bodies ≤ d.plan.bodies.length) {args : List Operand}
    (hheld : ∀ arg ∈ args, arg.Held pool bodies) (make : List Expr → ExprId → Expr)
    (hid : ∀ es id, (make es id).id = id) (hchildren : ∀ es id, (make es id).children = es)
    (hsubquery : ∀ es id id' body, make es id ≠ .subquery id' body) :
    let run := (do newExpr (make (← operands args)) : Builder Expr) d
    run.2.Draws pool bodies [run.1] := by
  obtain ⟨pool', hsub, hin, hdraws, hbodies'⟩ := draws_operands h hbodies hheld
  have hargs : ∀ id, (make (operands args d).1 id).children ⊆ pool' := fun id => by
    rw [hchildren]
    exact hin
  exact ⟨_, List.subset_cons_of_subset _ hsub, List.cons_subset_cons _ (List.nil_subset _),
    hdraws.newExpr (hid _ _) (hargs _)
      (fun _ _ heq => absurd heq (hsubquery _ _ _ _)), hbodies'⟩

theorem draws_call (h : d.plan.DrawsFrom pool) (hbodies : bodies ≤ d.plan.bodies.length)
    (function : Function) {args : List Operand} (hheld : ∀ arg ∈ args, arg.Held pool bodies) :
    (call function args d).2.Draws pool bodies [(call function args d).1] :=
  draws_newExpr_operands h hbodies hheld (fun es id => .call id function es)
    (fun _ _ => rfl) (fun _ _ => rfl) fun _ _ _ _ heq => by cases heq

theorem draws_aggregate (h : d.plan.DrawsFrom pool) (hbodies : bodies ≤ d.plan.bodies.length)
    (function : Aggregate) {args : List Operand} (hheld : ∀ arg ∈ args, arg.Held pool bodies) :
    (aggregate function args d).2.Draws pool bodies [(aggregate function args d).1] :=
  draws_newExpr_operands h hbodies hheld (fun es id => .aggregate id function es)
    (fun _ _ => rfl) (fun _ _ => rfl) fun _ _ _ _ heq => by cases heq

theorem draws_callNamed (h : d.plan.DrawsFrom pool) (hbodies : bodies ≤ d.plan.bodies.length)
    (name : String) {args : List Operand} (hheld : ∀ arg ∈ args, arg.Held pool bodies) :
    (callNamed name args d).2.Draws pool bodies [(callNamed name args d).1] := by
  unfold callNamed
  cases Function.ofName? name with
  | some function => exact draws_call h hbodies function hheld
  | none => exact draws_literal (d := d.fail (.unknownFunction name)) h hbodies .null

theorem draws_conjoin (h : d.plan.DrawsFrom pool) (hbodies : bodies ≤ d.plan.bodies.length)
    {existing : Option Expr} {cond : Expr} (hexisting : existing.toList ⊆ pool) (hcond : cond ∈ pool) :
    (conjoin existing cond d).2.Draws pool bodies [(conjoin existing cond d).1] := by
  cases existing with
  | none => exact .of_same h hbodies (List.cons_subset.2 ⟨hcond, List.nil_subset _⟩) rfl
  | some e =>
      refine draws_call h hbodies .and (List.forall_mem_cons.2 ⟨hexisting List.mem_cons_self, ?_⟩)
      exact List.forall_mem_cons.2 ⟨hcond, fun _ hmem => by cases hmem⟩

/-! ## Clauses -/

/-- A clause of the body is set to expressions just made. -/
theorem draws_clause {made es : List Expr} (h : d.Draws pool bodies made) {f : Body → Body}
    (hes : es ⊆ made) (hexprs : ∀ body, (f body).expressions ⊆ es ++ body.expressions)
    (hsources : ∀ body, (f body).sources = body.sources) :
    (d.modifyBody f).Draws pool bodies [] :=
  (h.modifyBody (fun body => List.Subset.trans (hexprs body)
    (List.append_subset.2 ⟨List.subset_append_of_subset_left _ hes,
      List.subset_append_right _ _⟩)) hsources).weaken (List.Subset.refl _) (List.nil_subset _)

theorem draws_filter (h : d.plan.DrawsFrom pool) (hbodies : bodies ≤ d.plan.bodies.length)
    {cond : Operand} (hcond : cond.Held pool bodies) : (filter cond d).2.Draws pool bodies [] := by
  obtain ⟨pool₁, hsub₁, hin₁, hdraws₁, hbodies₁⟩ := draws_operand h hbodies hcond
  have hexisting : ((operand cond d).2.body.filter).toList ⊆ pool₁ :=
    List.Subset.trans (Body.filter_subset_expressions _) (hdraws₁.body _)
  have hmerged := draws_conjoin hdraws₁ hbodies₁ hexisting (hin₁ List.mem_cons_self)
  exact (draws_clause hmerged (List.Subset.refl _) (fun body => body.expressions_setFilter _)
    fun _ => rfl).weaken hsub₁ (List.nil_subset _)

theorem draws_having (h : d.plan.DrawsFrom pool) (hbodies : bodies ≤ d.plan.bodies.length)
    {cond : Operand} (hcond : cond.Held pool bodies) : (having cond d).2.Draws pool bodies [] := by
  obtain ⟨pool₁, hsub₁, hin₁, hdraws₁, hbodies₁⟩ := draws_operand h hbodies hcond
  have hexisting : ((operand cond d).2.body.having).toList ⊆ pool₁ :=
    List.Subset.trans (Body.having_subset_expressions _) (hdraws₁.body _)
  have hmerged := draws_conjoin hdraws₁ hbodies₁ hexisting (hin₁ List.mem_cons_self)
  exact (draws_clause hmerged (List.Subset.refl _) (fun body => body.expressions_setHaving _)
    fun _ => rfl).weaken hsub₁ (List.nil_subset _)

theorem on_run (proxy : Proxy) (cond : Operand) (d : Draft) :
    on proxy cond d =
      match (operand cond d).2.body.source? proxy.path.base with
      | none => fail (.unknownAlias proxy.path.base) (operand cond d).2
      | some source =>
          if source.join.isNone then filter (.expr (operand cond d).1) (operand cond d).2
          else
            let run := conjoin ((operand cond d).2.body.joinCondition? proxy.path.base)
              (operand cond d).1 (operand cond d).2
            ((), run.2.modifyBody fun body => { body with
              joinConditions := setCondition proxy.path.base run.1 body.joinConditions }) := by
  change (match (operand cond d).2.body.source? proxy.path.base with
    | none => fail (.unknownAlias proxy.path.base)
    | some source =>
        if source.join.isNone then filter (.expr (operand cond d).1)
        else do
          let merged ← conjoin ((operand cond d).2.body.joinCondition? proxy.path.base)
            (operand cond d).1
          modifyBody fun body => { body with
            joinConditions := setCondition proxy.path.base merged body.joinConditions } :
      Builder Unit) (operand cond d).2 = _
  cases (operand cond d).2.body.source? proxy.path.base with
  | none => rfl
  | some source =>
      dsimp only
      split <;> rfl

theorem draws_on (h : d.plan.DrawsFrom pool) (hbodies : bodies ≤ d.plan.bodies.length)
    (proxy : Proxy) {cond : Operand} (hcond : cond.Held pool bodies) :
    (on proxy cond d).2.Draws pool bodies [] := by
  obtain ⟨pool₁, hsub₁, hin₁, hdraws₁, hbodies₁⟩ := draws_operand h hbodies hcond
  have hmem := hin₁ List.mem_cons_self
  have hheld : (Operand.expr (operand cond d).1).Held pool₁ bodies := hmem
  rw [on_run]
  split
  next => exact ⟨pool₁, hsub₁, List.nil_subset _, hdraws₁, hbodies₁⟩
  next =>
    split
    next => exact (draws_filter hdraws₁ hbodies₁ hheld).weaken hsub₁ (List.nil_subset _)
    next =>
      have hexisting : (((operand cond d).2.body.joinCondition? proxy.path.base)).toList ⊆ pool₁ := by
        intro e he
        refine hdraws₁.body _ (Body.joinExprs_subset_expressions _ (List.mem_map.2
          ⟨(_, e), mem_of_lookup (Option.mem_toList.1 he), rfl⟩))
      have hmerged := draws_conjoin hdraws₁ hbodies₁ hexisting hmem
      exact (draws_clause hmerged (List.Subset.refl _)
        (fun body => body.expressions_setCondition _ _) fun _ => rfl).weaken hsub₁ (List.nil_subset _)

theorem draws_onFields (h : d.plan.DrawsFrom pool) (hbodies : bodies ≤ d.plan.bodies.length)
    (proxy : Proxy) {fields : List (String × Operand)}
    (hheld : ∀ entry ∈ fields, entry.2.Held pool bodies) :
    (onFields proxy fields d).2.Draws pool bodies [] := by
  induction fields generalizing d pool with
  | nil => exact .of_same h hbodies (List.nil_subset _) rfl
  | cons entry rest ih =>
      obtain ⟨hfirst, hrest⟩ := List.forall_mem_cons.1 hheld
      have hargs : ∀ arg ∈ [Operand.ref ⟨proxy.body, proxy.path.get entry.1⟩, entry.2],
          arg.Held pool bodies :=
        List.forall_mem_cons.2 ⟨trivial, List.forall_mem_cons.2 ⟨hfirst, fun _ hmem => by cases hmem⟩⟩
      obtain ⟨pool₁, hsub₁, hin₁, hdraws₁, hbodies₁⟩ := draws_call h hbodies .eq hargs
      have hcond : (Operand.expr (call .eq _ d).1).Held pool₁ bodies := hin₁ List.mem_cons_self
      obtain ⟨pool₂, hsub₂, -, hdraws₂, hbodies₂⟩ := draws_on hdraws₁ hbodies₁ proxy hcond
      have hsub := List.Subset.trans hsub₁ hsub₂
      exact (ih hdraws₂ hbodies₂ fun entry hentry =>
        (hrest entry hentry).mono hsub (Nat.le_refl _)).weaken hsub (List.nil_subset _)

theorem bind_plan (name : String) (origin : Origin) (join : Option JoinKind) (d : Draft) :
    (Builder.bind name origin join d).2.plan =
      let source : Source := { id := d.plan.sourceCount, name, origin, join }
      { d.plan with
        sourceCount := d.plan.sourceCount + 1
        bodies := d.plan.bodies.modify d.scope.body fun body =>
          { body with sources := body.sources ++ [source] } } := by
  simp only [Builder.bind, Bind.bind, StateT.bind, get, getThe, MonadStateOf.get, StateT.get, Pure.pure]
  cases bindError? join (!d.body.sources.isEmpty) <;> cases d.body.binds name <;> rfl

theorem draws_bind (h : d.plan.DrawsFrom pool) (name : String) {origin : Origin}
    (horigin : origin.Held d.plan.bodies.length) (join : Option JoinKind) :
    (Builder.bind name origin join d).2.Draws pool d.plan.bodies.length [] := by
  refine ⟨pool, List.Subset.refl _, List.nil_subset _, ?_, by simp [bind_plan]⟩
  rw [bind_plan]
  exact h.bindSource d.scope.body rfl horigin

theorem draws_closeBody (h : d.plan.DrawsFrom pool) :
    (closeBody d).2.Draws pool d.plan.bodies.length [] := by
  refine .of_same h (Nat.le_refl _) (List.nil_subset _) ?_
  obtain ⟨plan, scope, outer⟩ := d
  cases outer with
  | nil => rfl
  | cons scope' outer =>
      simp only [closeBody, Bind.bind, StateT.bind, get, getThe, MonadStateOf.get, StateT.get, Pure.pure]
      cases Draft.outcome { plan, scope, outer := scope' :: outer } <;> rfl

theorem draws_openBody (h : d.plan.DrawsFrom pool) :
    (openBody d).2.Draws pool d.plan.bodies.length [] :=
  ⟨pool, List.Subset.refl _, List.nil_subset _, h.openBody, by
    simp [openBody, modify, modifyGet, MonadStateOf.modifyGet, StateT.modifyGet, Pure.pure]⟩

theorem draws_markSpread {made : List Expr} (h : d.Draws pool bodies made) (proxy : Proxy) :
    (markSpread proxy d).2.Draws pool bodies made := by
  unfold markSpread
  split
  next =>
    refine h.modifyBody (fun body => ?_) fun body => ?_
    · split
      · exact List.subset_append_right _ _
      · exact List.subset_append_right _ body.expressions
    · split <;> rfl
  next => exact h

/-- The fields of a selection are made of operands. -/
theorem draws_selectFields (h : d.plan.DrawsFrom pool) (hbodies : bodies ≤ d.plan.bodies.length)
    {items : List SelectItem} (hheld : ∀ item ∈ items, item.operand.Held pool bodies) :
    (selectFields items d).2.Draws pool bodies
      ((selectFields items d).1.map SelectField.expr) := by
  induction items generalizing d pool with
  | nil => exact .of_same h hbodies (List.nil_subset _) rfl
  | cons item rest ih =>
      obtain ⟨hfirst, hrest⟩ := List.forall_mem_cons.1 hheld
      obtain ⟨pool₁, hsub₁, hin₁, hdraws₁, hbodies₁⟩ := draws_operand h hbodies hfirst
      obtain ⟨pool₂, hsub₂, hin₂, hdraws₂, hbodies₂⟩ := ih hdraws₁ hbodies₁
        fun item hitem => (hrest item hitem).mono hsub₁ (Nat.le_refl _)
      have hmade := List.cons_subset.2 ⟨hsub₂ (hin₁ List.mem_cons_self), hin₂⟩
      cases item <;> exact ⟨pool₂, List.Subset.trans hsub₁ hsub₂, hmade, hdraws₂, hbodies₂⟩

theorem draws_setSelection (selection : Selection) (h : d.Draws pool bodies selection.exprs) :
    (setSelection selection d).2.Draws pool bodies [] := by
  change ((if d.body.selection.isSome then fail .selectionRedefined
    else modifyBody fun body => { body with selection := some selection } : Builder Unit) d).2.Draws
      pool bodies []
  split
  next => exact h.weaken (List.Subset.refl _) (List.nil_subset _)
  next =>
    exact draws_clause h (List.Subset.refl _) (fun body => body.expressions_setSelection _)
      fun _ => rfl

theorem draws_select (h : d.plan.DrawsFrom pool) (hbodies : bodies ≤ d.plan.bodies.length)
    {items : List SelectItem} (hheld : ∀ item ∈ items, item.operand.Held pool bodies) :
    (select items d).2.Draws pool bodies [] :=
  draws_setSelection (.fields _) (draws_selectFields h hbodies hheld)

theorem draws_selectValue (h : d.plan.DrawsFrom pool) (hbodies : bodies ≤ d.plan.bodies.length)
    {value : Operand} (hheld : value.Held pool bodies) :
    (selectValue value d).2.Draws pool bodies [] := by
  cases value with
  | ref proxy =>
      obtain ⟨pool₁, hsub₁, -, hdraws₁, hbodies₁⟩ :=
        draws_markSpread (.of_same h hbodies (List.nil_subset _) rfl) proxy
      have hread : (Operand.ref proxy).Held pool₁ bodies := trivial
      exact (draws_setSelection (.value _) (draws_operand hdraws₁ hbodies₁ hread)).weaken hsub₁
        (List.nil_subset _)
  | expr e => exact draws_setSelection (.value _) (draws_operand h hbodies hheld)
  | value value => exact draws_setSelection (.value _) (draws_operand h hbodies hheld)
  | query body => exact draws_setSelection (.value _) (draws_operand h hbodies hheld)

theorem draws_groupBy (h : d.plan.DrawsFrom pool) (hbodies : bodies ≤ d.plan.bodies.length)
    {keys : List Operand} (hheld : ∀ key ∈ keys, key.Held pool bodies) :
    (groupBy keys d).2.Draws pool bodies [] :=
  draws_clause (draws_operands h hbodies hheld) (List.Subset.refl _)
    (fun body => body.expressions_addKeys _) fun _ => rfl

theorem draws_orderBy (h : d.plan.DrawsFrom pool) (hbodies : bodies ≤ d.plan.bodies.length)
    {value : Operand} (hheld : value.Held pool bodies) (direction : Direction) :
    (orderBy value direction d).2.Draws pool bodies [] :=
  draws_clause (draws_operand h hbodies hheld) (List.Subset.refl _)
    (fun body => body.expressions_addTerm ⟨_, direction⟩) fun _ => rfl

/-- A part of the body is set that holds no expressions. -/
theorem draws_option (h : d.plan.DrawsFrom pool) {f : Body → Body}
    (hexprs : ∀ body, (f body).expressions = body.expressions)
    (hsources : ∀ body, (f body).sources = body.sources) :
    (d.modifyBody f).Draws pool d.plan.bodies.length [] :=
  Draws.modifyBody (.of_same h (Nat.le_refl _) (List.nil_subset _) rfl)
    (fun body => by rw [hexprs]; exact List.Subset.refl _) hsources

end Builder

namespace Draft

variable {d : Draft} {pool : List Expr}

/-- What a plan draws from grows by a call. -/
theorem Call.draws (h : d.plan.DrawsFrom pool) {call : Call}
    (allowed : call.Held pool d.plan.bodies.length) :
    (call.run d).2.Draws pool d.plan.bodies.length (call.run d).1 := by
  have hle := Nat.le_refl d.plan.bodies.length
  obtain ⟨hoperands, horigin⟩ := allowed
  cases call with
  | expression operand => exact Builder.draws_operand h hle (hoperands _ List.mem_cons_self)
  | call function args => exact Builder.draws_call h hle function hoperands
  | callNamed name args => exact Builder.draws_callNamed h hle name hoperands
  | aggregate function args => exact Builder.draws_aggregate h hle function hoperands
  | freshAlias => exact ⟨pool, List.Subset.refl _, List.nil_subset _, h.setAliasCount _, hle⟩
  | bind name origin join => exact Builder.draws_bind h name (horigin _ rfl) join
  | filter cond => exact Builder.draws_filter h hle (hoperands _ List.mem_cons_self)
  | on proxy cond => exact Builder.draws_on h hle proxy (hoperands _ List.mem_cons_self)
  | onFields proxy fields =>
      exact Builder.draws_onFields h hle proxy fun entry hentry =>
        hoperands _ (List.mem_map_of_mem (f := Prod.snd) hentry)
  | openBody => exact Builder.draws_openBody h
  | closeBody => exact Builder.draws_closeBody h
  | spread proxy => exact Builder.draws_markSpread (.of_same h hle (List.nil_subset _) rfl) proxy
  | select items =>
      exact Builder.draws_select h hle fun item hitem =>
        hoperands _ (List.mem_map_of_mem (f := SelectItem.operand) hitem)
  | selectValue value => exact Builder.draws_selectValue h hle (hoperands _ List.mem_cons_self)
  | groupBy keys => exact Builder.draws_groupBy h hle hoperands
  | having cond => exact Builder.draws_having h hle (hoperands _ List.mem_cons_self)
  | orderBy value direction =>
      exact Builder.draws_orderBy h hle (hoperands _ List.mem_cons_self) direction
  | limit n => exact Builder.draws_option h (fun _ => rfl) fun _ => rfl
  | offset n => exact Builder.draws_option h (fun _ => rfl) fun _ => rfl
  | distinct => exact Builder.draws_option h (fun _ => rfl) fun _ => rfl

theorem Call.Held.mono {call : Call} {held held' : List Expr} {bodies : Nat}
    (h : call.Held held bodies) (hsub : held ⊆ held') : call.Held held' bodies :=
  ⟨fun operand hmem => (h.operands operand hmem).mono hsub (Nat.le_refl _), h.origin⟩

/-- What is in a written plan was made for it, and so was what the caller holds. -/
theorem Written.draws {held : List Expr} (h : Written held d) :
    ∃ pool, held ⊆ pool ∧ d.plan.DrawsFrom pool := by
  induction h with
  | first => exact ⟨[], List.Subset.refl _, Plan.DrawsFrom.openBody Plan.DrawsFrom.empty⟩
  | query _ _ ih =>
      obtain ⟨pool, hsub, hdraws⟩ := ih
      exact ⟨pool, hsub, hdraws.openBody⟩
  | call _ call allowed ih =>
      obtain ⟨pool, hsub, hdraws⟩ := ih
      obtain ⟨pool', hsub', hin, hdraws', -⟩ := Call.draws hdraws (allowed.mono hsub)
      exact ⟨pool', List.append_subset.2 ⟨hin, List.Subset.trans hsub hsub'⟩, hdraws'⟩

end Draft

/-! ## What is apart in a written plan -/

namespace Plan

variable {plan : Plan}

namespace Written

theorem draws (h : plan.Written) : ∃ pool, plan.DrawsFrom pool := by
  obtain ⟨held, d, hwritten, rfl⟩ := h
  obtain ⟨pool, -, hdraws⟩ := hwritten.draws
  exact ⟨pool, hdraws⟩

theorem sourcesApart (h : plan.Written) : plan.SourcesApart :=
  h.draws.elim fun _ hdraws => hdraws.sourcesApart

theorem exprsApart (h : plan.Written) : plan.ExprsApart := by
  obtain ⟨pool, hdraws⟩ := h.draws
  have hin : ∀ body ∈ plan.bodies, body.occurring ⊆ pool := fun body hbody e he => by
    obtain ⟨top, htop, he⟩ := List.mem_flatMap.1 he
    exact Expr.subterms_subset hdraws.children top (hdraws.expressions body hbody htop) he
  exact fun body hbody body' hbody' e he e' he' =>
    hdraws.apart e (hin body hbody he) e' (hin body' hbody' he')

/-- What a body holds is a body of the plan. -/
theorem lt_of_holds (h : plan.Written) {body sub : BodyId} (hholds : plan.Holds body sub) :
    sub < plan.bodies.length := by
  obtain ⟨pool, hdraws⟩ := h.draws
  cases hholds with
  | @source source mem origin =>
      have := hdraws.origins _ (body_mem_bodies mem) source mem
      rwa [origin] at this
  | subquery mem => exact hdraws.subqueryBodies _ sub (hdraws.occurring body mem)

end Written

end Plan

end LiveQuery
