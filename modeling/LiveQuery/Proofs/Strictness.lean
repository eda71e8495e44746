import LiveQuery.Proofs.Evaluator

/-!
# Strict evaluations

Under the strict policy an evaluation fails where it would otherwise go on with a missing value.
So what it gives when it does not fail, it gives under the other policy too.

**Results.** `Evaluator.Refines.eval`, and the same for all that a view makes of a tuple or a
group.
-/

namespace LiveQuery

/-- What the first evaluation gives, the second one gives too. -/
def Except.Refines {ε α : Type} (x y : Except ε α) : Prop :=
  ∀ a, x = .ok a → y = .ok a

namespace Except.Refines

variable {ε α β : Type} {x y : Except ε α}

theorem refl (x : Except ε α) : Except.Refines x x := fun _ h => h

theorem bind {f g : α → Except ε β} (hxy : Except.Refines x y)
    (hfg : ∀ a, Except.Refines (f a) (g a)) : Except.Refines (x >>= f) (y >>= g) := by
  intro b h
  obtain ⟨a, hx, hf⟩ := Except.bind_eq_ok.1 h
  exact Except.bind_eq_ok.2 ⟨a, hxy a hx, hfg a b hf⟩

theorem map (f : α → β) (hxy : Except.Refines x y) : Except.Refines (f <$> x) (f <$> y) := by
  intro b h
  cases x with
  | error e => cases h
  | ok a =>
      rw [hxy a rfl]
      exact h

end Except.Refines

/-- The strict policy refines both. -/
theorem FieldPolicy.refines_settle (policy : FieldPolicy) (error : EvalError) :
    Except.Refines (FieldPolicy.strict.settle error) (policy.settle error) :=
  fun _ h => (nomatch h)

namespace Evaluator

/-- Evaluators of one plan, of which the first one refines the other in what its policy settles
and in what it reads. -/
structure Refines (ev ev' : Evaluator) : Prop where
  plan : ev.plan = ev'.plan
  settle : ∀ error, Except.Refines (ev.policy.settle error) (ev'.policy.settle error)
  rows : ∀ source frames,
    Except.Refines (ev.inputs.rows source frames) (ev'.inputs.rows source frames)
  subquery : ∀ body frames,
    Except.Refines (ev.inputs.subquery body frames) (ev'.inputs.subquery body frames)

namespace Refines

variable {ev ev' : Evaluator}

/-! ## Expressions -/

theorem descend (h : ev.Refines ev') (path : Path) (value : Scalar) (fields : List String) :
    Except.Refines (ev.descend path value fields) (ev'.descend path value fields) := by
  induction fields generalizing path value with
  | nil => exact .refl _
  | cons field rest ih =>
      unfold Evaluator.descend
      cases value with
      | record row =>
          simp only
          cases row.get? field with
          | some value => exact ih _ value
          | none => exact h.settle _
      | undefined => exact .refl _
      | null => exact .refl _
      | _ => exact h.settle _

theorem lookup (h : ev.Refines ev') (frames : List Frame) (path : Path) :
    Except.Refines (ev.lookup frames path) (ev'.lookup frames path) := by
  unfold Evaluator.lookup
  rw [bound_eq h.plan]
  exact .bind (.refl _) fun value => h.descend _ value _

theorem applied (h : ev.Refines ev') (function : Function) (values : List Scalar) :
    Except.Refines (ev.applied function values) (ev'.applied function values) := by
  unfold Evaluator.applied
  cases function.apply values with
  | some value => exact .refl _
  | none => exact h.settle _

mutual

theorem eval (h : ev.Refines ev') (frames : List Frame) (e : Expr) :
    Except.Refines (ev.eval frames e) (ev'.eval frames e) := by
  match e with
  | .literal id value => exact .refl _
  | .reference id path =>
      simp only [Evaluator.eval]
      exact h.lookup frames path
  | .aggregate id function args => exact .refl _
  | .subquery id body =>
      simp only [Evaluator.eval]
      exact .bind (h.subquery body frames) fun rows => .refl _
  | .call id function args =>
      cases function with
      | and | or | coalesce =>
          simp only [Evaluator.eval]
          exact .bind (h.firstWhere frames _ args) fun first => .refl _
      | _ =>
          simp only [Evaluator.eval]
          exact .bind (h.evalAll frames args) fun values => h.applied _ values

theorem evalAll (h : ev.Refines ev') (frames : List Frame) (exprs : List Expr) :
    Except.Refines (ev.evalAll frames exprs) (ev'.evalAll frames exprs) := by
  match exprs with
  | [] => exact .refl _
  | e :: rest =>
      simp only [Evaluator.evalAll]
      exact .bind (h.eval frames e) fun value =>
        .bind (h.evalAll frames rest) fun values => .refl _

/-- Both stop at the same expression. -/
theorem firstWhere (h : ev.Refines ev') (frames : List Frame) (p : Scalar → Bool)
    (exprs : List Expr) :
    Except.Refines (ev.firstWhere frames p exprs) (ev'.firstWhere frames p exprs) := by
  match exprs with
  | [] => exact .refl _
  | e :: rest =>
      simp only [Evaluator.firstWhere]
      refine .bind (h.eval frames e) fun value => ?_
      split
      · exact .refl _
      · exact h.firstWhere frames p rest

end

theorem holds (h : ev.Refines ev') (frames : List Frame) (cond : Expr) :
    Except.Refines (ev.holds frames cond) (ev'.holds frames cond) :=
  .bind (h.eval frames cond) fun _ => .refl _

theorem admits (h : ev.Refines ev') (frames : List Frame) (cond : Option Expr) :
    Except.Refines (ev.admits frames cond) (ev'.admits frames cond) := by
  cases cond with
  | none => exact .refl _
  | some cond => exact h.holds frames cond

/-! ## Output rows -/

theorem projectFields (h : ev.Refines ev') (frames : List Frame) (row : Row)
    (items : List SelectField) :
    Except.Refines (ev.projectFields frames row items) (ev'.projectFields frames row items) := by
  induction items generalizing row with
  | nil => exact .refl _
  | cons item rest ih =>
      cases item with
      | named name e => exact .bind (h.eval frames e) fun value => ih _
      | spread e =>
          simp only [Evaluator.projectFields]
          refine .bind (h.eval frames e) fun value => ?_
          cases value with
          | record fields => exact ih _
          | _ => exact ih row

theorem projectRow (h : ev.Refines ev') (frames : List Frame) (selection : Option Selection) :
    Except.Refines (ev.projectRow frames selection) (ev'.projectRow frames selection) := by
  cases selection with
  | none => exact .refl _
  | some selection =>
      cases selection with
      | fields items => exact h.projectFields frames .nil items
      | value e => exact .bind (h.eval frames e) fun _ => .refl _

theorem project (h : ev.Refines ev') (frames : List Frame) (body : Body) :
    Except.Refines (ev.project frames body) (ev'.project frames body) :=
  .bind (h.projectRow frames body.selection) fun _ => .bind (h.evalAll frames _) fun _ => .refl _

theorem aggregated (h : ev.Refines ev') (frames : List Frame) (e : Expr) :
    Except.Refines (ev.aggregated frames e) (ev'.aggregated frames e) := by
  cases e with
  | aggregate id function args =>
      cases args with
      | nil => exact .refl _
      | cons arg rest => exact h.eval frames arg
  | _ => exact .refl _

theorem aggregatedAll (h : ev.Refines ev') (frames : List Frame) (exprs : List Expr) :
    Except.Refines (ev.aggregatedAll frames exprs) (ev'.aggregatedAll frames exprs) := by
  induction exprs with
  | nil => exact .refl _
  | cons e rest ih => exact .bind (h.aggregated frames e) fun _ => .bind ih fun _ => .refl _

end Refines

end Evaluator

end LiveQuery
