import LiveQuery.Plan.Checking
import LiveQuery.Proofs.Plan.Chains
import Mathlib.Logic.Function.Iterate

/-!
# Recursions over the bodies of a plan

The check of a query and the search for free aliases call themselves for the bodies below a body.
Each is written here as one step that is given what becomes of the calls it makes. Unfolded as often
as the plan is deep, no call is left: whatever stands for the calls that are left then, the outcome
is the same. The check meets no body twice, also where bodies refer to each other in a circle; free
aliases are only looked for below grounded bodies.

**Results.** `Plan.checkBody_unfolded` and `Plan.Within.free_unfolded`: both recursions end.
-/

namespace LiveQuery

/-- What follows step by step is a number of steps from the start. -/
theorem eq_iterate_of_succ {α : Type} {f : Nat → α} {step : α → α}
    (h : ∀ n, f (n + 1) = step (f n)) (n : Nat) : f n = step^[n] (f 0) := by
  induction n with
  | zero => rfl
  | succ n ih => rw [h, Function.iterate_succ_apply', ih]

namespace Plan

/-- The check of a body, given that of the bodies below. -/
def checkStep (plan : Plan) (check : BodyId → List BodyId → Checked) (id : BodyId)
    (seen : List BodyId) : Checked :=
  if seen.contains id then .ok seen
  else
    let body := plan.body id
    if body.having.isSome && body.groupBy.isNone then .error .havingWithoutGroups
    else
      match checkClauses check (id :: seen) body.clauses with
      | .error error => .error error
      | .ok seen => checkBodies check seen body.queriedBodies

theorem checkBody_succ (plan : Plan) (n : Nat) :
    plan.checkBody (n + 1) = plan.checkStep (plan.checkBody n) := rfl

/-- The free aliases of a body, given those of the bodies below. -/
def freeStep (plan : Plan) (free : BodyId → List String) (id : BodyId) : List String :=
  let body := plan.body id
  let read := body.expressions.flatMap (Expr.readAliases free) ++ body.sourceAliases free
  (read.filter fun name => !body.binds name).eraseDups

theorem freeWithin_succ (plan : Plan) (n : Nat) :
    plan.freeWithin (n + 1) = plan.freeStep (plan.freeWithin n) := rfl

/-! ## Checks -/

/-- The bodies that have been checked are different ones of the plan, at least a given number. -/
structure Seen (plan : Plan) (n : Nat) (seen : List BodyId) : Prop where
  nodup : seen.Nodup
  lt : ∀ b ∈ seen, b < plan.bodies.length
  length : n ≤ seen.length

/-- Two checks have the same outcome, and check no body twice. -/
def SameCheck (plan : Plan) (n : Nat) (x x' : Checked) : Prop :=
  x = x' ∧ ∀ seen, x' = .ok seen → plan.Seen n seen

namespace SameCheck

variable {plan : Plan} {n : Nat} {x x' : Checked}

theorem ok {seen : List BodyId} (h : plan.Seen n seen) :
    plan.SameCheck n (.ok seen) (.ok seen) :=
  ⟨rfl, fun _ heq => by cases heq; exact h⟩

theorem error (e : BuildError) : plan.SameCheck n (.error e) (.error e) :=
  ⟨rfl, fun _ heq => by cases heq⟩

/-- A check goes on with what has been checked. -/
theorem bind {f f' : List BodyId → Checked} : plan.SameCheck n x x' →
    (∀ seen, plan.Seen n seen → plan.SameCheck n (f seen) (f' seen)) →
    plan.SameCheck n (match x with | .error e => .error e | .ok seen => f seen)
      (match x' with | .error e => .error e | .ok seen => f' seen) := by
  rintro ⟨rfl, hseen⟩ hf
  cases x with
  | error e => exact .error e
  | ok seen => exact hf seen (hseen seen rfl)

end SameCheck

section

variable {plan : Plan} {n : Nat} {check check' : BodyId → List BodyId → Checked}

mutual

theorem sameCheck_expr (hcheck : ∀ id, id < plan.bodies.length → ∀ seen, plan.Seen n seen →
      plan.SameCheck n (check id seen) (check' id seen))
    {clause : Clause} {within : Bool} {seen : List BodyId} (e : Expr)
    (he : ∀ id sub, .subquery id sub ∈ e.subterms → sub < plan.bodies.length)
    (hseen : plan.Seen n seen) :
    plan.SameCheck n (checkExpr check clause within seen e) (checkExpr check' clause within seen e) := by
  match e with
  | .literal .. => exact .ok hseen
  | .reference .. => exact .ok hseen
  | .subquery id body => exact hcheck body (he id body List.mem_cons_self) seen hseen
  | .call id function args =>
      have hargs := fun id sub hmem => he id sub (List.mem_cons_of_mem _ hmem)
      unfold checkExpr
      split
      · exact sameCheck_exprs hcheck args hargs hseen
      · exact .error _
  | .aggregate id function args =>
      have hargs := fun id sub hmem => he id sub (List.mem_cons_of_mem _ hmem)
      unfold checkExpr
      repeat' split
      · exact .error _
      · exact .error _
      · exact sameCheck_exprs hcheck args hargs hseen
      · exact .error _

theorem sameCheck_exprs (hcheck : ∀ id, id < plan.bodies.length → ∀ seen, plan.Seen n seen →
      plan.SameCheck n (check id seen) (check' id seen))
    {clause : Clause} {within : Bool} {seen : List BodyId} (es : List Expr)
    (hes : ∀ id sub, .subquery id sub ∈ Expr.subtermsOf es → sub < plan.bodies.length)
    (hseen : plan.Seen n seen) :
    plan.SameCheck n (checkExprs check clause within seen es)
      (checkExprs check' clause within seen es) := by
  match es with
  | [] => exact .ok hseen
  | e :: rest =>
      unfold checkExprs
      refine (sameCheck_expr hcheck e
        (fun id sub hmem => hes id sub (List.mem_append_left _ hmem)) hseen).bind fun seen hseen => ?_
      exact sameCheck_exprs hcheck rest
        (fun id sub hmem => hes id sub (List.mem_append_right _ hmem)) hseen

end

variable (hcheck : ∀ id, id < plan.bodies.length → ∀ seen, plan.Seen n seen →
  plan.SameCheck n (check id seen) (check' id seen))

include hcheck

theorem sameCheck_clauses {seen : List BodyId} {clauses : List (Expr × Clause)}
    (hclauses : ∀ entry ∈ clauses, ∀ id sub, .subquery id sub ∈ entry.1.subterms →
      sub < plan.bodies.length) (hseen : plan.Seen n seen) :
    plan.SameCheck n (checkClauses check seen clauses) (checkClauses check' seen clauses) := by
  induction clauses generalizing seen with
  | nil => exact .ok hseen
  | cons entry rest ih =>
      obtain ⟨hfirst, hrest⟩ := List.forall_mem_cons.1 hclauses
      unfold checkClauses
      exact (sameCheck_expr hcheck entry.1 hfirst hseen).bind fun seen hseen => ih hrest hseen

theorem sameCheck_bodies {seen : List BodyId} {bodies : List BodyId}
    (hbodies : ∀ b ∈ bodies, b < plan.bodies.length) (hseen : plan.Seen n seen) :
    plan.SameCheck n (checkBodies check seen bodies) (checkBodies check' seen bodies) := by
  induction bodies generalizing seen with
  | nil => exact .ok hseen
  | cons b rest ih =>
      obtain ⟨hfirst, hrest⟩ := List.forall_mem_cons.1 hbodies
      unfold checkBodies
      exact (hcheck b hfirst seen hseen).bind fun seen hseen => ih hrest hseen

end

theorem mem_expressions_of_clauses {body : Body} {entry : Expr × Clause}
    (h : entry ∈ body.clauses) : entry.1 ∈ body.expressions := by
  simp only [Body.clauses, List.mem_append, List.mem_map] at h
  simp only [Body.expressions, List.mem_append, List.mem_map]
  rcases h with ((((⟨e, he, rfl⟩ | ⟨e, he, rfl⟩) | ⟨e, he, rfl⟩) | ⟨e, he, rfl⟩) | ⟨e, he, rfl⟩)
    | ⟨t, ht, rfl⟩
  · simp [he]
  · simp [he]
  · simp [he]
  · simp [he]
  · simp [he]
  · exact .inr ⟨t, ht, rfl⟩

theorem Holds.of_queriedBodies {plan : Plan} {body sub : BodyId}
    (h : sub ∈ (plan.body body).queriedBodies) : plan.Holds body sub := by
  obtain ⟨source, hsource, heq⟩ := List.mem_filterMap.1 h
  cases horigin : source.origin with
  | collection ref => simp [horigin] at heq
  | query sub' =>
      rw [horigin] at heq
      cases heq
      exact .source hsource horigin

theorem Holds.of_expression {plan : Plan} {body sub : BodyId} {e : Expr} {id : ExprId}
    (he : e ∈ (plan.body body).expressions) (h : .subquery id sub ∈ e.subterms) :
    plan.Holds body sub :=
  .subquery (List.mem_flatMap.2 ⟨e, he, h⟩)

/-- However the calls that are left are answered, a check unfolded as often as there are bodies not
seen has the same outcome. -/
theorem sameCheck_body {plan : Plan} (hwritten : plan.Written)
    (cut : BodyId → List BodyId → Checked) {k m n : Nat} (hm : plan.bodies.length ≤ k + m)
    (hn : plan.bodies.length < k + n) {id : BodyId} (hid : id < plan.bodies.length)
    {seen : List BodyId} (hseen : plan.Seen k seen) :
    plan.SameCheck k (plan.checkStep^[n] cut id seen) (plan.checkBody m id seen) := by
  have hfew := length_le_of_nodup_of_lt hseen.nodup hseen.lt
  have hlength := hseen.length
  induction m generalizing n k id seen with
  | zero =>
      -- all bodies have been seen, this one among them
      have hmem : id ∈ seen := by
        by_contra hnew
        have := length_le_of_nodup_of_lt (List.nodup_cons.2 ⟨hnew, hseen.nodup⟩)
          (List.forall_mem_cons.2 ⟨hid, hseen.lt⟩)
        rw [List.length_cons] at this
        omega
      obtain ⟨n, rfl⟩ : ∃ n', n = n' + 1 := ⟨n - 1, by omega⟩
      rw [Function.iterate_succ_apply']
      unfold checkStep
      rw [if_pos (List.contains_iff_mem.2 hmem)]
      exact .ok hseen
  | succ m ih =>
      obtain ⟨n, rfl⟩ : ∃ n', n = n' + 1 := ⟨n - 1, by omega⟩
      rw [Function.iterate_succ_apply', checkBody_succ]
      unfold checkStep
      dsimp only
      split
      · exact .ok hseen
      next hnew =>
        split
        · exact .error _
        · have hseen' : plan.Seen (k + 1) (id :: seen) :=
            ⟨List.nodup_cons.2 ⟨by simpa using hnew, hseen.nodup⟩,
              List.forall_mem_cons.2 ⟨hid, hseen.lt⟩, Nat.succ_le_succ hlength⟩
          have hagain : ∀ b, b < plan.bodies.length → ∀ seen, plan.Seen (k + 1) seen →
              plan.SameCheck (k + 1) (plan.checkStep^[n] cut b seen) (plan.checkBody m b seen) :=
            fun b hb seen hseen => ih (by omega) (by omega) hb hseen
              (length_le_of_nodup_of_lt hseen.nodup hseen.lt) hseen.length
          have hclauses : ∀ entry ∈ (plan.body id).clauses, ∀ id' sub,
              .subquery id' sub ∈ entry.1.subterms → sub < plan.bodies.length :=
            fun entry hentry id' sub hmem => hwritten.lt_of_holds
              (.of_expression (mem_expressions_of_clauses hentry) hmem)
          have hbodies : ∀ b ∈ (plan.body id).queriedBodies, b < plan.bodies.length :=
            fun b hb => hwritten.lt_of_holds (.of_queriedBodies hb)
          obtain ⟨hsame, hgrown⟩ := (sameCheck_clauses hagain hclauses hseen').bind
            fun seen hseen => sameCheck_bodies hagain hbodies hseen
          refine ⟨hsame, fun seen heq => ?_⟩
          obtain ⟨hnodup, hlt, hlen⟩ := hgrown seen heq
          exact ⟨hnodup, hlt, Nat.le_of_succ_le hlen⟩

theorem checkBody_unfolded {plan : Plan} (hwritten : plan.Written) {query : BodyId}
    (hquery : query < plan.bodies.length) (cut : BodyId → List BodyId → Checked) {n : Nat}
    (hn : plan.depth < n) :
    plan.checkStep^[n] cut query [] = plan.checkBody plan.depth query [] := by
  have hseen : plan.Seen 0 [] := ⟨.nil, fun _ hb => absurd hb List.not_mem_nil, Nat.le_refl _⟩
  exact (sameCheck_body hwritten cut (Nat.le_of_eq (Nat.zero_add _).symm)
    (by simpa [depth] using hn) hquery hseen).1

/-! ## Free aliases -/

theorem readAliases_congr {free free' : BodyId → List String} {e : Expr}
    (h : ∀ id sub, .subquery id sub ∈ e.subterms → free sub = free' sub) :
    e.readAliases free = e.readAliases free' := by
  refine List.flatMap_congr fun x hx => ?_
  cases x with
  | subquery id sub => exact h id sub hx
  | _ => rfl

/-- The free aliases of a body depend on those of the bodies it holds. -/
theorem freeStep_congr {plan : Plan} {free free' : BodyId → List String} {body : BodyId}
    (h : ∀ sub, plan.Holds body sub → free sub = free' sub) :
    plan.freeStep free body = plan.freeStep free' body := by
  have hexprs : (plan.body body).expressions.flatMap (Expr.readAliases free)
      = (plan.body body).expressions.flatMap (Expr.readAliases free') :=
    List.flatMap_congr fun e he =>
      readAliases_congr fun id sub hmem => h sub (.of_expression he hmem)
  have hsources : (plan.body body).sourceAliases free = (plan.body body).sourceAliases free' := by
    refine List.flatMap_congr fun source hsource => ?_
    cases horigin : source.origin with
    | collection ref => rfl
    | query sub => exact h sub (.source hsource horigin)
  unfold freeStep
  simp only [hexprs, hsources]

theorem freeAliases_eq (plan : Plan) :
    plan.freeAliases = plan.freeStep^[plan.depth] fun _ => [] :=
  eq_iterate_of_succ plan.freeWithin_succ plan.depth

namespace Within

variable {plan : Plan} {body : BodyId} {k m n : Nat}

theorem free_eq (h : plan.Within k body) (cut cut' : BodyId → List String) (hm : k ≤ m)
    (hn : k ≤ n) : plan.freeStep^[m] cut body = plan.freeStep^[n] cut' body := by
  induction h generalizing m n with
  | @intro k body below ih =>
      obtain ⟨m, rfl⟩ : ∃ m', m = m' + 1 := ⟨m - 1, by omega⟩
      obtain ⟨n, rfl⟩ : ∃ n', n = n' + 1 := ⟨n - 1, by omega⟩
      rw [Function.iterate_succ_apply', Function.iterate_succ_apply']
      exact freeStep_congr fun sub hholds =>
        ih sub hholds (Nat.le_of_succ_le_succ hm) (Nat.le_of_succ_le_succ hn)

theorem free_unfolded (h : plan.Within plan.depth body) (cut : BodyId → List String)
    (hn : plan.depth ≤ n) : plan.freeStep^[n] cut body = plan.freeAliases body := by
  rw [plan.freeAliases_eq]
  exact h.free_eq cut _ hn (Nat.le_refl _)

/-- The free aliases of a body are made of those of the bodies below. -/
theorem freeAliases_step (h : plan.Within plan.depth body) :
    plan.freeAliases body = plan.freeStep plan.freeAliases body := by
  rw [← h.free_unfolded (fun _ => []) (Nat.le_succ _), Function.iterate_succ_apply',
    ← plan.freeAliases_eq]

theorem mem_freeAliases (h : plan.Within plan.depth body) {name : String} :
    name ∈ plan.freeAliases body ↔
      ((∃ e ∈ (plan.body body).expressions, name ∈ e.readAliases plan.freeAliases) ∨
        name ∈ (plan.body body).sourceAliases plan.freeAliases) ∧
      (plan.body body).binds name = false := by
  rw [h.freeAliases_step]
  simp only [freeStep, List.mem_eraseDups, List.mem_filter, List.mem_append, List.mem_flatMap,
    Bool.not_eq_true']

/-- An alias that a body reads and does not bind is free in it. -/
theorem free_of_reference (h : plan.Within plan.depth body) {id : ExprId} {path : Path}
    (hoccurs : .reference id path ∈ (plan.body body).occurring)
    (hbinds : (plan.body body).binds path.base = false) : path.base ∈ plan.freeAliases body := by
  obtain ⟨top, htop, hmem⟩ := List.mem_flatMap.1 hoccurs
  have hread : path.base ∈ top.readAliases plan.freeAliases :=
    List.mem_flatMap.2 ⟨_, hmem, List.mem_singleton.2 rfl⟩
  exact h.mem_freeAliases.2 ⟨.inl ⟨top, htop, hread⟩, hbinds⟩

/-- An alias that is free in a body is free in one that holds it and does not bind the alias. -/
theorem free_of_holds (h : plan.Within plan.depth body) {sub : BodyId} (hholds : plan.Holds body sub)
    {name : String} (hname : name ∈ plan.freeAliases sub)
    (hbinds : (plan.body body).binds name = false) : name ∈ plan.freeAliases body := by
  refine h.mem_freeAliases.2 ⟨?_, hbinds⟩
  cases hholds with
  | @source source mem origin =>
      refine .inr (List.mem_flatMap.2 ⟨source, mem, ?_⟩)
      rwa [origin]
  | subquery mem =>
      obtain ⟨top, htop, hmem⟩ := List.mem_flatMap.1 mem
      exact .inl ⟨top, htop, List.mem_flatMap.2 ⟨_, hmem, hname⟩⟩

end Within

end Plan

end LiveQuery
