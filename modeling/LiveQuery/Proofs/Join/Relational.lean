import LiveQuery.Plan.Draft
import LiveQuery.Proofs.Join.Combination

/-!
# Joins as relations

The sources of a body are joined from the left. A step keeps a combination with each row that joins
it; a left or full join keeps a combination that no row joins, with the row missing; a right or full
join keeps a row that joins no combination, with all sources before it missing. The join of a body
without lateral sources makes just these combinations, each once, and drops those that `where` does
not keep.

**Results.** `Plan.enumerate_exact`.
-/

namespace LiveQuery

namespace JoinPlan

open Combination

section

variable (ev : Evaluator) (body : BodyId) (outer : List Frame)

/-- The combinations after a step, given those before it. -/
inductive Stepped (step : JoinStep) (rows : Rows) (position : Nat) (before : Combination → Prop) :
    Combination → Prop
  | joined {c : Combination} {entry : Key × Row} (mem : before c) (row : entry ∈ rows.entries)
      (joins : Joins ev body outer step (c.add (some entry))) :
      Stepped step rows position before (c.add (some entry))
  | left {c : Combination}
      (kind : step.source.join = some .left ∨ step.source.join = some .full) (mem : before c)
      (lonely : ∀ entry ∈ rows.entries, ¬Joins ev body outer step (c.add (some entry))) :
      Stepped step rows position before (c.add none)
  | right {entry : Key × Row}
      (kind : step.source.join = some .right ∨ step.source.join = some .full)
      (row : entry ∈ rows.entries)
      (lonely : ∀ c, before c → ¬Joins ev body outer step (c.add (some entry))) :
      Stepped step rows position before (lone position entry)

/-- The combinations after some steps from a position on, each with the rows of its source, given
those before them. -/
def Combined : Nat → (Combination → Prop) → List (JoinStep × Rows) → Combination → Prop
  | _, before, [] => before
  | position, before, (step, rows) :: rest =>
      Combined (position + 1) (Stepped ev body outer step rows position before) rest

/-- The conditions of some steps, and `where` after them, have values wherever they are asked for. -/
def Evaluable (filter : Option Expr) :
    Nat → (Combination → Prop) → List (JoinStep × Rows) → Prop
  | _, before, [] =>
      ∀ c, before c → ∃ stays, ev.admits (frames body outer c.env) filter = .ok stays
  | position, before, (step, rows) :: rest =>
      (∀ c, before c → ∀ entry ∈ rows.entries, ∃ joins,
        ev.admits (frames body outer (c.add (some entry)).env) step.condition = .ok joins) ∧
      Evaluable filter (position + 1) (Stepped ev body outer step rows position before) rest

end

variable {ev : Evaluator} {body : BodyId} {outer : List Frame} {fixed : Option (Nat × Rows)}
  {filter : Option Expr} {steps : List JoinStep} {sources : List Rows} {position : Nat}
  {cs : List Combination} {before : Combination → Prop}

/-! ## One step -/

theorem joinable_shared {step : JoinStep} {rows : Rows} {c : Combination} :
    Joinable ev body outer step (some rows) c ↔ ∀ entry ∈ rows.entries, ∃ joins,
      ev.admits (frames body outer (c.add (some entry)).env) step.condition = .ok joins := by
  constructor
  · rintro ⟨_, hrows, hall⟩
    cases hrows
    exact hall
  · exact fun hall => ⟨rows, rfl, hall⟩

theorem mem_joining_shared {step : JoinStep} {rows : Rows} {c : Combination}
    {entry : Key × Row} :
    entry ∈ joining ev body outer step (some rows) c ↔
      entry ∈ rows.entries ∧ Joins ev body outer step (c.add (some entry)) :=
  mem_joining rfl

theorem joining_eq_nil {step : JoinStep} {rows : Rows} {c : Combination} :
    joining ev body outer step (some rows) c = [] ↔
      ∀ entry ∈ rows.entries, ¬Joins ev body outer step (c.add (some entry)) := by
  simp only [List.eq_nil_iff_forall_not_mem, mem_joining_shared, not_and]

theorem mem_next_iff (hcs : ∀ c, c ∈ cs ↔ before c) {step : JoinStep} {rows : Rows}
    (c' : Combination) :
    c' ∈ next ev body outer step position (some rows) cs ↔
      Stepped ev body outer step rows position before c' := by
  rw [mem_next]
  constructor
  · rintro (⟨c, hc, entry, hentry, rfl⟩ | ⟨hleft, c, hc, hnone, rfl⟩ | ⟨entry, hentry, rfl⟩)
    · obtain ⟨hrow, hjoins⟩ := mem_joining_shared.1 hentry
      exact .joined ((hcs c).1 hc) hrow hjoins
    · exact .left (JoinStep.keepsLeft_iff.1 hleft) ((hcs c).1 hc) (joining_eq_nil.1 hnone)
    · obtain ⟨hright, ⟨_, hrows, hrow⟩, hlonely⟩ := mem_unjoined.1 hentry
      cases hrows
      exact .right (JoinStep.keepsRight_iff.1 hright) hrow fun c hc hjoins =>
        hlonely c ((hcs c).2 hc) (mem_joining_shared.2 ⟨hrow, hjoins⟩)
  · intro h
    cases h with
    | @joined c entry mem row joins =>
        exact .inl ⟨c, (hcs c).2 mem, entry, mem_joining_shared.2 ⟨row, joins⟩, rfl⟩
    | @left c kind mem lonely =>
        exact .inr (.inl ⟨JoinStep.keepsLeft_iff.2 kind, c, (hcs c).2 mem,
          joining_eq_nil.2 lonely, rfl⟩)
    | @right entry kind row lonely =>
        refine .inr (.inr ⟨entry, mem_unjoined.2
          ⟨JoinStep.keepsRight_iff.2 kind, ⟨rows, rfl, row⟩, fun c hc hentry => ?_⟩, rfl⟩)
        exact lonely c ((hcs c).1 hc) (mem_joining_shared.1 hentry).2

/-! ## All steps -/

theorem exists_runSteps_iff_evaluable (supplied : Supplied ev outer fixed position steps sources)
    (hcs : ∀ c, c ∈ cs ↔ before c) :
    (∃ ts, (runSteps ev body outer fixed position (cs.map toPartial) steps
        >>= filtered ev body outer filter) = .ok ts)
      ↔ Evaluable ev body outer filter position before (steps.zip sources) := by
  induction supplied generalizing cs before with
  | done position =>
      constructor
      · rintro ⟨ts, h⟩ c hc
        exact (filtered_toPartial.1 h).1 c ((hcs c).2 hc)
      · intro h
        exact ⟨_, filtered_toPartial.2 ⟨fun c hc => h c ((hcs c).1 hc), rfl⟩⟩
  | @step position step steps rows sources first rest ih =>
      have hnext : ∀ c, c ∈ next ev body outer step position (some rows) cs ↔
          Stepped ev body outer step rows position before c := mem_next_iff hcs
      rw [runSteps_cons first, List.zip_cons_cons, Evaluable, ← ih hnext]
      constructor
      · rintro ⟨ts, h⟩
        obtain ⟨joined, hjoined, h⟩ := Except.bind_eq_ok.1 h
        obtain ⟨hall, rfl⟩ := runStep_eq_ok_iff.1 hjoined
        exact ⟨fun c hc => joinable_shared.1 (hall c ((hcs c).2 hc)), ts, h⟩
      · rintro ⟨hall, ts, h⟩
        exact ⟨ts, Except.bind_eq_ok.2 ⟨_, runStep_eq_ok_iff.2
          ⟨fun c hc => joinable_shared.2 (hall c ((hcs c).1 hc)), rfl⟩, h⟩⟩

theorem runSteps_combined (supplied : Supplied ev outer fixed position steps sources)
    (hnodup : cs.Nodup) (hcs : ∀ c, c ∈ cs ↔ before c) {joined : List PartialTuple}
    (hrun : runSteps ev body outer fixed position (cs.map toPartial) steps = .ok joined) :
    ∃ cs' : List Combination, cs'.Nodup ∧ joined = cs'.map toPartial ∧
      ∀ c, c ∈ cs' ↔ Combined ev body outer position before (steps.zip sources) c := by
  induction supplied generalizing cs before with
  | done position =>
      cases hrun
      exact ⟨cs, hnodup, rfl, hcs⟩
  | @step position step steps rows sources first rest ih =>
      obtain ⟨_, hshared, hrun⟩ := Except.bind_eq_ok.1 hrun
      cases first.symm.trans hshared
      obtain ⟨tuples, htuples, hrun⟩ := Except.bind_eq_ok.1 hrun
      obtain ⟨-, rfl⟩ := runStep_eq_ok_iff.1 htuples
      exact ih (nodup_next hnodup) (mem_next_iff hcs) hrun

end JoinPlan

namespace Plan

open JoinPlan

/-- Where no source of a body is lateral, its tuples can be made just if the rows of its sources can
be read and all conditions have values, and they are then the combinations of the join that `where`
keeps, each made once. -/
theorem enumerate_exact (plan : Plan) (id : BodyId)
    (uncorrelated : ∀ source ∈ (plan.body id).sources, plan.isLateral source = false)
    (ev : Evaluator) (outer : List Frame) (fixed : Option (Nat × Rows)) :
    ((∃ ts, (plan.joinPlan id).enumerate ev outer fixed = .ok ts) ↔
      ∃ sources, Supplied ev outer fixed 0 (plan.joinPlan id).steps sources ∧
        Evaluable ev id outer (plan.body id).filter 0 (· = [])
          ((plan.joinPlan id).steps.zip sources)) ∧
    ∀ sources ts, Supplied ev outer fixed 0 (plan.joinPlan id).steps sources →
      (plan.joinPlan id).enumerate ev outer fixed = .ok ts →
        ∃ cs : List Combination, cs.Nodup ∧ ts = cs.map Combination.tuple ∧ ∀ c, c ∈ cs ↔
          Combined ev id outer 0 (· = []) ((plan.joinPlan id).steps.zip sources) c ∧
            ev.admits (frames id outer c.env) (plan.body id).filter = .ok true := by
  have hshared : ∀ step ∈ (plan.joinPlan id).steps, step.lateral = false := by
    intro step hstep
    obtain ⟨source, hsource, rfl⟩ := List.mem_map.1 hstep
    exact uncorrelated source hsource
  have hstart : ∀ c : Combination, c ∈ [[]] ↔ c = [] := fun c => List.mem_singleton
  constructor
  · constructor
    · rintro ⟨ts, h⟩
      obtain ⟨joined, hjoined, hts⟩ := Except.bind_eq_ok.1 h
      obtain ⟨sources, supplied⟩ := exists_supplied hshared hjoined
      exact ⟨sources, supplied, (exists_runSteps_iff_evaluable supplied hstart).1 ⟨ts, h⟩⟩
    · rintro ⟨sources, supplied, hevaluable⟩
      exact (exists_runSteps_iff_evaluable supplied hstart).2 hevaluable
  · intro sources ts supplied h
    obtain ⟨joined, hjoined, hts⟩ := Except.bind_eq_ok.1 h
    obtain ⟨cs, hnodup, rfl, hcs⟩ :=
      runSteps_combined supplied (List.nodup_singleton _) hstart hjoined
    obtain ⟨-, rfl⟩ := filtered_toPartial.1 hts
    refine ⟨_, hnodup.filter _, rfl, fun c => ?_⟩
    rw [List.mem_filter, hcs, Except.isTrue_iff]
    rfl

/-- The rows of `a`, with those of `b` that have their field `x` and those of `c` that have the
field of these. -/
def chained : Plan :=
  ((do
    let a ← Builder.bind "a" (.collection ⟨0, "a"⟩) none
    let b ← Builder.bind "b" (.collection ⟨1, "b"⟩) (some .full)
    let onB ← Builder.call .eq [.ref ⟨b.body, b.path.get "x"⟩, .ref ⟨a.body, a.path.get "x"⟩]
    Builder.on b (.expr onB)
    let c ← Builder.bind "c" (.collection ⟨2, "c"⟩) (some .left)
    let onC ← Builder.call .eq [.ref ⟨c.body, c.path.get "x"⟩, .ref ⟨b.body, b.path.get "x"⟩]
    Builder.on c (.expr onC)
    Builder.selectValue (.ref a) : Builder Unit).run (Plan.openQuery {})).2.plan

/-- The evaluation of `chained` over two rows of each source. -/
def chainedOver : Evaluator where
  plan := chained
  policy := .strict
  inputs :=
    { rows := fun source _ => .ok (.numbered
        (match source.id with
          | 0 => [1, 2]
          | 1 => [1, 3]
          | _ => [3, 3]))
      subquery := fun _ _ => .error .tooDeep }

/-- The first row of `a` joins the first one of `b`, the second one of `a` stays alone, and the
second one of `b`, that joins no row of `a`, is joined by both rows of `c`. -/
theorem enumerate_exact_chained :
    (∀ source ∈ (chained.body 0).sources, chained.isLateral source = false) ∧
      ∃ sources ts, Supplied chainedOver [] none 0 (chained.joinPlan 0).steps sources ∧
        (chained.joinPlan 0).enumerate chainedOver [] none = .ok ts ∧
        ts.map Tuple.key = [⟨[.int 1, .int 1, .null]⟩, ⟨[.int 2, .null, .null]⟩,
          ⟨[.null, .int 2, .int 1]⟩, ⟨[.null, .int 2, .int 2]⟩] ∧
        ∃ cs : List Combination, cs.Nodup ∧ ts = cs.map Combination.tuple ∧ ∀ c, c ∈ cs ↔
          Combined chainedOver 0 [] 0 (· = []) ((chained.joinPlan 0).steps.zip sources) c ∧
            chainedOver.admits (frames 0 [] c.env) (chained.body 0).filter = .ok true := by
  have huncorrelated : ∀ source ∈ (chained.body 0).sources, chained.isLateral source = false := by
    decide +kernel
  obtain ⟨ts, hts, hkeys⟩ : ∃ ts, (chained.joinPlan 0).enumerate chainedOver [] none = .ok ts ∧
      ts.map Tuple.key = [⟨[.int 1, .int 1, .null]⟩, ⟨[.int 2, .null, .null]⟩,
        ⟨[.null, .int 2, .int 1]⟩, ⟨[.null, .int 2, .int 2]⟩] :=
    Except.exists_of_toOption (by decide +kernel)
  obtain ⟨hexists, hexact⟩ := enumerate_exact chained 0 huncorrelated chainedOver [] none
  obtain ⟨sources, supplied, -⟩ := hexists.1 ⟨ts, hts⟩
  exact ⟨huncorrelated, sources, ts, supplied, hts, hkeys, hexact sources ts supplied hts⟩

end Plan

end LiveQuery
