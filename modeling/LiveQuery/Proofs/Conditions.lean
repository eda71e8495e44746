import LiveQuery.Plan.Filters
import LiveQuery.Proofs.Evaluator

/-!
# Conditions taken apart

A condition that holds has conjuncts that hold. A conjunct that reads one alias, no aggregate and no
subquery has a value that depends on what is bound to that alias alone; where values may be missing
it always has one.

**Results.** `Evaluator.holds_conjuncts`, `Evaluator.holds_eq_of_readsOnly`,
`Evaluator.exists_holds_of_readsOnly`.
-/

namespace LiveQuery

namespace Evaluator

variable {ev ev' : Evaluator} {frames frames' : List Frame} {es : List Expr}

/-- Some expressions are computed from references alone. -/
structure Rowwise (es : List Expr) : Prop where
  aggregates : ∀ id function args, .aggregate id function args ∉ es
  subqueries : ∀ id sub, .subquery id sub ∉ es

theorem Rowwise.sees (h : Rowwise es) (hpolicy : ev.policy = ev'.policy)
    (hbound : ∀ id path, .reference id path ∈ es →
      ev.bound path.base frames = ev'.bound path.base frames') :
    ev.Sees frames ev' frames' es where
  policy := hpolicy
  references := hbound
  aggregates id function args hmem := absurd hmem (h.aggregates id function args)
  subqueries id sub hmem := absurd hmem (h.subqueries id sub)

/-! ## Values that may be missing -/

theorem exists_settle (hpolicy : ev.policy = .undefined) (error : EvalError) :
    ∃ value, ev.policy.settle error = .ok value := by
  rw [hpolicy]
  exact ⟨_, rfl⟩

theorem exists_descend (hpolicy : ev.policy = .undefined) (path : Path) (value : Scalar)
    (fields : List String) : ∃ result, ev.descend path value fields = .ok result := by
  induction fields generalizing path value with
  | nil => exact ⟨value, rfl⟩
  | cons field rest ih =>
      have hmissing := exists_settle hpolicy
        (.fieldNotFound (path.get field).base (path.get field).toText)
      cases value with
      | record row =>
          simp only [descend]
          cases row.get? field with
          | none => exact hmissing
          | some value => exact ih _ value
      | undefined => exact ⟨_, rfl⟩
      | null => exact ⟨_, rfl⟩
      | _ => exact hmissing

theorem exists_applied (hpolicy : ev.policy = .undefined) (function : Function)
    (values : List Scalar) : ∃ result, ev.applied function values = .ok result := by
  unfold applied
  cases function.apply values with
  | some value => exact ⟨value, rfl⟩
  | none => exact exists_settle hpolicy _

mutual

/-- An expression whose references can be read has a value, if values may be missing. -/
theorem exists_eval (hpolicy : ev.policy = .undefined) (hrows : Rowwise es)
    (hbound : ∀ id path, .reference id path ∈ es → ∃ value, ev.bound path.base frames = .ok value)
    (e : Expr) (he : e.subterms ⊆ es) : ∃ value, ev.eval frames e = .ok value := by
  match e with
  | .literal id value => exact ⟨value, rfl⟩
  | .reference id path =>
      obtain ⟨value, hvalue⟩ := hbound id path (he List.mem_cons_self)
      obtain ⟨result, hresult⟩ := exists_descend hpolicy ⟨path.base, []⟩ value path.fields
      exact ⟨result, Except.bind_eq_ok.2 ⟨value, hvalue, hresult⟩⟩
  | .aggregate id function args =>
      exact absurd (he List.mem_cons_self) (hrows.aggregates id function args)
  | .subquery id sub => exact absurd (he List.mem_cons_self) (hrows.subqueries id sub)
  | .call id function args =>
      have hargs : Expr.subtermsOf args ⊆ es := fun x hx => he (List.mem_cons_of_mem _ hx)
      have hfirst (p : Scalar → Bool) := exists_firstWhere hpolicy hrows hbound p args hargs
      obtain ⟨values, hvalues⟩ := exists_evalAll hpolicy hrows hbound args hargs
      obtain ⟨result, hresult⟩ := exists_applied hpolicy function values
      cases function with
      | and =>
          obtain ⟨found, hfound⟩ := hfirst fun v => !v.truthy
          exact ⟨_, Except.bind_eq_ok.2 ⟨found, hfound, rfl⟩⟩
      | or =>
          obtain ⟨found, hfound⟩ := hfirst Scalar.truthy
          exact ⟨_, Except.bind_eq_ok.2 ⟨found, hfound, rfl⟩⟩
      | coalesce =>
          obtain ⟨found, hfound⟩ := hfirst fun v => !v.isNullish
          exact ⟨_, Except.bind_eq_ok.2 ⟨found, hfound, rfl⟩⟩
      | _ => exact ⟨result, Except.bind_eq_ok.2 ⟨values, hvalues, hresult⟩⟩

theorem exists_evalAll (hpolicy : ev.policy = .undefined) (hrows : Rowwise es)
    (hbound : ∀ id path, .reference id path ∈ es → ∃ value, ev.bound path.base frames = .ok value)
    (exprs : List Expr) (he : Expr.subtermsOf exprs ⊆ es) :
    ∃ values, ev.evalAll frames exprs = .ok values := by
  match exprs with
  | [] => exact ⟨[], rfl⟩
  | e :: rest =>
      obtain ⟨value, hvalue⟩ := exists_eval hpolicy hrows hbound e fun x hx =>
        he (List.mem_append_left _ hx)
      obtain ⟨values, hvalues⟩ := exists_evalAll hpolicy hrows hbound rest fun x hx =>
        he (List.mem_append_right _ hx)
      exact ⟨value :: values, Except.bind_eq_ok.2 ⟨value, hvalue,
        Except.bind_eq_ok.2 ⟨values, hvalues, rfl⟩⟩⟩

theorem exists_firstWhere (hpolicy : ev.policy = .undefined) (hrows : Rowwise es)
    (hbound : ∀ id path, .reference id path ∈ es → ∃ value, ev.bound path.base frames = .ok value)
    (p : Scalar → Bool) (exprs : List Expr) (he : Expr.subtermsOf exprs ⊆ es) :
    ∃ found, ev.firstWhere frames p exprs = .ok found := by
  match exprs with
  | [] => exact ⟨none, rfl⟩
  | e :: rest =>
      obtain ⟨value, hvalue⟩ := exists_eval hpolicy hrows hbound e fun x hx =>
        he (List.mem_append_left _ hx)
      obtain ⟨found, hfound⟩ := exists_firstWhere hpolicy hrows hbound p rest fun x hx =>
        he (List.mem_append_right _ hx)
      by_cases hp : p value = true
      · exact ⟨some value, Except.bind_eq_ok.2 ⟨value, hvalue, by rw [if_pos hp]; rfl⟩⟩
      · exact ⟨found, Except.bind_eq_ok.2 ⟨value, hvalue, by rw [if_neg hp]; exact hfound⟩⟩

end

/-! ## Conjuncts -/

theorem holds_eq_ok_true {cond : Expr} :
    ev.holds frames cond = .ok true ↔
      ∃ value, ev.eval frames cond = .ok value ∧ value.truthy = true := by
  rw [holds, Except.bind_eq_ok]
  exact exists_congr fun value => and_congr_right fun _ => Except.pure_eq_ok

mutual

/-- Where a condition holds, all of its conjuncts do. -/
theorem holds_conjuncts (cond : Expr) (h : ev.holds frames cond = .ok true) :
    ∀ c ∈ cond.conjuncts, ev.holds frames c = .ok true := by
  match cond with
  | .call id function args =>
      by_cases hand : function = .and
      · subst hand
        obtain ⟨value, hvalue, htruthy⟩ := holds_eq_ok_true.1 h
        obtain ⟨found, hfound, hvalue⟩ := Except.bind_eq_ok.1 hvalue
        obtain rfl := Except.pure_eq_ok.1 hvalue
        have hnone : found = none := Option.isNone_iff_eq_none.1 htruthy
        exact holds_conjunctsOf args (hnone ▸ hfound)
      · have hself : (Expr.call id function args).conjuncts = [.call id function args] := by
          cases function <;> first | rfl | exact absurd rfl hand
        rw [hself]
        exact List.forall_mem_singleton.2 h
  | .literal .. => exact List.forall_mem_singleton.2 h
  | .reference .. => exact List.forall_mem_singleton.2 h
  | .aggregate .. => exact List.forall_mem_singleton.2 h
  | .subquery .. => exact List.forall_mem_singleton.2 h

theorem holds_conjunctsOf (args : List Expr)
    (h : ev.firstWhere frames (fun v => !v.truthy) args = .ok none) :
    ∀ c ∈ Expr.conjunctsOf args, ev.holds frames c = .ok true := by
  match args with
  | [] => exact fun _ h => absurd h List.not_mem_nil
  | e :: rest =>
      obtain ⟨value, hvalue, h⟩ := Except.bind_eq_ok.1 h
      cases htruthy : value.truthy with
      | false =>
          simp only [htruthy] at h
          cases h
      | true =>
          simp only [htruthy] at h
          intro c hc
          rcases List.mem_append.1 hc with hc | hc
          · exact holds_conjuncts e (holds_eq_ok_true.2 ⟨value, hvalue, htruthy⟩) c hc
          · exact holds_conjunctsOf rest h c hc

end

theorem holds_of_admits {cond : Option Expr} (h : ev.admits frames cond = .ok true) :
    ∀ c ∈ cond.toList.flatMap Expr.conjuncts, ev.holds frames c = .ok true := by
  cases cond with
  | none => exact fun _ h => absurd h List.not_mem_nil
  | some cond =>
      intro c hc
      rw [Option.toList_some, List.flatMap_singleton] at hc
      exact holds_conjuncts cond h c hc

/-! ## Conditions on one source -/

variable {name : String} {c : Expr}

theorem base_of_readsOnly (h : Body.readsOnly name c = true) {id : ExprId} {path : Path}
    (hmem : .reference id path ∈ c.subterms) : path.base = name := by
  simp only [Body.readsOnly, Bool.and_eq_true, decide_eq_true_eq] at h
  have hbase : path.base ∈ c.aliases :=
    List.mem_eraseDups.2 (List.mem_filterMap.2 ⟨_, hmem, rfl⟩)
  rw [h.1.1] at hbase
  exact List.mem_singleton.1 hbase

theorem rowwise_of_readsOnly (h : Body.readsOnly name c = true) : Rowwise c.subterms := by
  simp only [Body.readsOnly, Bool.and_eq_true, Bool.not_eq_true', Expr.containsAggregate,
    Expr.containsSubquery, List.any_eq_false] at h
  obtain ⟨⟨-, haggregates⟩, hsubqueries⟩ := h
  exact ⟨fun id function args hmem => haggregates _ hmem rfl,
    fun id sub hmem => hsubqueries _ hmem rfl⟩

theorem holds_eq_of_readsOnly (hreads : Body.readsOnly name c = true)
    (hpolicy : ev.policy = ev'.policy) (hbound : ev.bound name frames = ev'.bound name frames') :
    ev.holds frames c = ev'.holds frames' c := by
  have hsees : ev.Sees frames ev' frames' c.subterms :=
    (rowwise_of_readsOnly hreads).sees hpolicy fun id path hmem => by
      rw [base_of_readsOnly hreads hmem]
      exact hbound
  rw [holds, holds, hsees.eval_eq c (List.Subset.refl _)]

theorem exists_holds_of_readsOnly (hreads : Body.readsOnly name c = true)
    (hpolicy : ev.policy = .undefined) {value : Scalar}
    (hbound : ev.bound name frames = .ok value) :
    ∃ b, ev.holds frames c = .ok b := by
  obtain ⟨result, hresult⟩ := exists_eval hpolicy (rowwise_of_readsOnly hreads)
    (fun id path hmem => ⟨value, base_of_readsOnly hreads hmem ▸ hbound⟩) c (List.Subset.refl _)
  exact ⟨_, Except.bind_eq_ok.2 ⟨result, hresult, rfl⟩⟩

end Evaluator

end LiveQuery
