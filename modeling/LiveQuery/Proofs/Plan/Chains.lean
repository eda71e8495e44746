import LiveQuery.Plan.FreeAliases
import LiveQuery.Proofs.Plan.Written
import Mathlib.Data.List.Perm.Subperm
import Mathlib.Logic.Relation

/-!
# Chains of bodies

A body is grounded when no chain of bodies that hold one another goes on for ever below it. The
plan has only so many bodies, and a chain below a grounded body meets none twice. So its length
is bounded by the depth of the plan.

**Results.** `Plan.Grounded.within`: what is done for the bodies below a grounded one ends within
the depth of the plan. `Plan.Grounded.not_cyclic`: no cycle is below a grounded body.
-/

namespace LiveQuery

/-- Different numbers below a bound are not more than it. -/
theorem length_le_of_nodup_of_lt {l : List Nat} {n : Nat} (hnodup : l.Nodup)
    (hlt : ∀ k ∈ l, k < n) : l.length ≤ n := by
  have hsub : l ⊆ List.range n := fun k hk => List.mem_range.2 (hlt k hk)
  simpa using (List.subperm_of_subset hnodup hsub).length_le

namespace Plan

variable {plan : Plan} {body : BodyId}

/-- The bodies below a body, level by level, come to an end. -/
def Grounded (plan : Plan) (body : BodyId) : Prop :=
  Acc (fun sub body => plan.Holds body sub) body

/-- The chains of bodies that begin with a body have at most a given length. -/
inductive Within (plan : Plan) : Nat → BodyId → Prop
  | intro {n : Nat} {body : BodyId} (below : ∀ sub, plan.Holds body sub → Within plan n sub) :
      Within plan (n + 1) body

namespace Grounded

theorem below (h : plan.Grounded body) {sub : BodyId} (hholds : plan.Holds body sub) :
    plan.Grounded sub :=
  h.inv hholds

theorem reach (h : plan.Grounded body) {sub : BodyId}
    (hreach : Relation.ReflTransGen plan.Holds body sub) : plan.Grounded sub := by
  induction hreach with
  | refl => exact h
  | tail _ hholds ih => exact ih.below hholds

/-- No body below a grounded one is below itself. -/
theorem not_cyclic (h : plan.Grounded body) : ¬Relation.TransGen plan.Holds body body := by
  induction h with
  | intro body _ ih =>
      intro hcycle
      obtain ⟨sub, hholds, hback⟩ := Relation.TransGen.head'_iff.1 hcycle
      exact ih sub hholds (Relation.TransGen.tail' hback hholds)

/-- The chains below a grounded body are as long as the bodies that are not above it allow. -/
theorem within_of_above (hwritten : plan.Written) {n : Nat} {above : List BodyId}
    (hnodup : above.Nodup) (hlt : ∀ b ∈ above, b < plan.bodies.length)
    (habove : ∀ b ∈ above, Relation.TransGen plan.Holds b body)
    (hn : plan.bodies.length ≤ above.length + n) (hbody : body < plan.bodies.length)
    (h : plan.Grounded body) : plan.Within n body := by
  have hnew : body ∉ above := fun hmem => h.not_cyclic (habove body hmem)
  have hnodup' : (body :: above).Nodup := List.nodup_cons.2 ⟨hnew, hnodup⟩
  have hlt' : ∀ b ∈ body :: above, b < plan.bodies.length := List.forall_mem_cons.2 ⟨hbody, hlt⟩
  induction n generalizing body above with
  | zero =>
      have := length_le_of_nodup_of_lt hnodup' hlt'
      rw [List.length_cons] at this
      omega
  | succ n ih =>
      refine .intro fun sub hholds => ?_
      have hground := h.below hholds
      have habove' : ∀ b ∈ body :: above, Relation.TransGen plan.Holds b sub :=
        List.forall_mem_cons.2 ⟨.single hholds, fun b hb => (habove b hb).tail hholds⟩
      have hnew' : sub ∉ body :: above := fun hmem => hground.not_cyclic (habove' sub hmem)
      have hsub := hwritten.lt_of_holds hholds
      exact ih hnodup' hlt' habove' (by rw [List.length_cons]; omega) hsub hground hnew'
        (List.nodup_cons.2 ⟨hnew', hnodup'⟩) (List.forall_mem_cons.2 ⟨hsub, hlt'⟩)

theorem within (hwritten : plan.Written) (hbody : body < plan.bodies.length)
    (h : plan.Grounded body) : plan.Within plan.depth body :=
  within_of_above hwritten .nil (fun _ hb => by cases hb) (fun _ hb => by cases hb)
    (by simp [depth]) hbody h

end Grounded

end Plan

end LiveQuery
