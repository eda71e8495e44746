import LiveQuery.Proofs.Evaluator
import LiveQuery.Proofs.Plan.Course

/-!
# Generated aliases

Generated aliases are numbered over the whole plan, so no two of them are equal. Nothing is done
about the aliases that callers choose: one that is chosen as `source3`, say, is generated again
when its number comes.

**Results.** `Draft.Recounted.aliased`: the generated aliases of a plan are apart.
`Draft.Recounted.generated_apart`: a new alias is bound only where a caller has chosen it; so far
does a generated one cause no error, and is not mistaken for another one in a body inside.
`Draft.generated_apart_fails`: it is, when a caller has chosen it.
-/

namespace LiveQuery

theorem eq_of_toString {n m : Nat} (h : toString n = toString m) : n = m := by
  have hdigits : Nat.toDigits 10 n = Nat.toDigits 10 m := String.ofList_injective h
  rw [← Nat.ofDigitChars_toDigits (b := 10) (n := n) (by decide) (by decide), hdigits,
    Nat.ofDigitChars_toDigits (by decide) (by decide)]

namespace Draft

/-- The alias with a number. -/
def generatedAlias (n : Nat) : String :=
  "source" ++ toString n

theorem generatedAlias_injective {n m : Nat} (h : generatedAlias n = generatedAlias m) : n = m :=
  eq_of_toString ((String.append_right_inj _).1 h)

/-- The aliases that no caller has chosen are generated, each once. -/
structure Aliased (chosen : List SourceId) (d : Draft) : Prop where
  given : ∀ id ∈ chosen, id < d.plan.sourceCount
  numbered : ∀ body, ∀ source : Source, source ∈ (d.plan.body body).sources → source.id ∉ chosen →
    ∃ n ≤ d.plan.aliasCount, source.name = generatedAlias n
  apart : ∀ (body : BodyId) (i : Nat) (source : Source),
    (d.plan.body body).sources[i]? = some source → source.id ∉ chosen →
    ∀ (body' : BodyId) (i' : Nat) (source' : Source),
      (d.plan.body body').sources[i']? = some source' → source'.id ∉ chosen →
        source.name = source'.name → body = body' ∧ i = i'

namespace Aliased

variable {chosen : List SourceId} {d d' : Draft}

/-- The sources stay, while numbers may be given out. -/
theorem of_sources (h : Aliased chosen d)
    (sources : ∀ id, (d'.plan.body id).sources = (d.plan.body id).sources)
    (sourceCount : d'.plan.sourceCount = d.plan.sourceCount)
    (aliasCount : d.plan.aliasCount ≤ d'.plan.aliasCount) : Aliased chosen d' where
  given id hid := sourceCount ▸ h.given id hid
  numbered body source hmem hchosen := by
    rw [sources] at hmem
    obtain ⟨n, hn, hname⟩ := h.numbered body source hmem hchosen
    exact ⟨n, Nat.le_trans hn aliasCount, hname⟩
  apart body i source hi hchosen body' i' source' hi' := by
    rw [sources] at hi hi'
    exact h.apart body i source hi hchosen body' i' source' hi'

/-- A source is bound whose alias is chosen, or generated anew. -/
theorem bind (h : Aliased chosen d) {chosen' : List SourceId} {name : String} (origin : Origin)
    (join : Option JoinKind) (hsub : chosen ⊆ chosen')
    (hgiven : ∀ id ∈ chosen', id ≤ d.plan.sourceCount)
    (hname : d.plan.sourceCount ∉ chosen' → ∃ n ≤ d.plan.aliasCount, name = generatedAlias n ∧
      ∀ body, ∀ source ∈ (d.plan.body body).sources, source.id ∉ chosen → source.name ≠ name) :
    Aliased chosen' (Builder.bind name origin join d).2 := by
  have hplan := Builder.bind_plan name origin join d
  constructor
  case given =>
    intro id hid
    rw [hplan]
    exact Nat.lt_succ_of_le (hgiven id hid)
  case numbered =>
    intro body source hmem hchosen
    obtain ⟨i, hi⟩ := List.mem_iff_getElem?.1 hmem
    rw [hplan]
    rcases getElem?_sources_bind hi with hi | ⟨rfl, -, -⟩
    · exact h.numbered body source (List.mem_of_getElem? hi) fun hmem => hchosen (hsub hmem)
    · obtain ⟨n, hn, hname, -⟩ := hname hchosen
      exact ⟨n, hn, hname⟩
  case apart =>
    intro body i source hi hchosen body' i' source' hi' hchosen' heq
    rcases getElem?_sources_bind hi with hi | ⟨rfl, hbody, hi⟩ <;>
      rcases getElem?_sources_bind hi' with hi' | ⟨rfl, hbody', hi'⟩
    · exact h.apart body i source hi (fun hmem => hchosen (hsub hmem)) body' i' source' hi'
        (fun hmem => hchosen' (hsub hmem)) heq
    · obtain ⟨_, -, -, hnew⟩ := hname hchosen'
      exact absurd heq (hnew body source (List.mem_of_getElem? hi) fun hmem => hchosen (hsub hmem))
    · obtain ⟨_, -, -, hnew⟩ := hname hchosen
      exact absurd heq.symm
        (hnew body' source' (List.mem_of_getElem? hi') fun hmem => hchosen' (hsub hmem))
    · obtain rfl := hbody.trans hbody'.symm
      exact ⟨rfl, hi.trans hi'.symm⟩

/-- The next alias is none of those that were generated. -/
theorem ne_freshAlias (h : Aliased chosen d) {body : BodyId} {source : Source}
    (hmem : source ∈ (d.plan.body body).sources) (hchosen : source.id ∉ chosen) :
    source.name ≠ (Builder.freshAlias d).1 := by
  obtain ⟨n, hn, hname⟩ := h.numbered body source hmem hchosen
  intro heq
  have := generatedAlias_injective (m := d.plan.aliasCount + 1) (hname.symm.trans heq)
  omega

end Aliased

/-! ## Chosen aliases -/

@[simp] theorem chosen_endBody (account : Account) (d : Draft) :
    (account.endBody d).chosen = account.chosen := by
  unfold Account.endBody
  split <;> rfl

@[simp] theorem chosen_endQuery (account : Account) (d : Draft) :
    (account.endQuery d).chosen = account.chosen := by
  unfold Account.endQuery
  split
  · exact chosen_endBody account d
  · rfl

/-- Only when a source is bound is an alias chosen. -/
theorem chosen_note {call : Call} (h : ∀ name origin join, call ≠ .bind name origin join)
    (account : Account) (d : Draft) : (account.note d call).chosen = account.chosen := by
  cases call with
  | bind name origin join => exact absurd rfl (h name origin join)
  | callNamed name args =>
      simp only [Account.note]
      split <;> rfl
  | closeBody =>
      simp only [Account.note]
      split
      · rfl
      · exact chosen_endBody account d
  | _ => rfl

/-- The generated aliases of a plan are apart, whatever aliases the caller chooses. -/
theorem Recounted.aliased {account : Account} {held : List Expr} {d : Draft}
    (h : Recounted account held d) : Aliased account.chosen d := by
  induction h with
  | first =>
      have hnone : ∀ body, ((Plan.openQuery {}).plan.body body).sources = [] := fun body => by
        rw [body_openQuery]
        rfl
      constructor
      · intro id hid
        cases hid
      · intro body source hmem
        rw [hnone] at hmem
        cases hmem
      · intro body i source hi
        rw [hnone] at hi
        cases hi
  | @query account held d _ closed ih =>
      rw [chosen_endQuery]
      exact ih.of_sources (fun id => by rw [body_openQuery]) rfl (Nat.le_refl _)
  | @generated account held d _ origin join allowed ih =>
      have hfresh : Aliased account.chosen (Builder.freshAlias d).2 :=
        ih.of_sources (fun _ => rfl) rfl (Nat.le_succ _)
      refine hfresh.bind origin join (List.Subset.refl _)
        (fun id hid => Nat.le_of_lt (ih.given id hid)) fun _ =>
          ⟨d.plan.aliasCount + 1, Nat.le_refl _, rfl, fun body source hmem hchosen => ?_⟩
      exact ih.ne_freshAlias hmem hchosen
  | @call account held d _ call allowed ih =>
      by_cases hstays : call.stays = true
      · have hcontinues := Call.continues hstays d
        have hchosen : (account.note d call).chosen = account.chosen := by
          cases call with
          | callNamed name args =>
              simp only [Account.note]
              split <;> rfl
          | bind name origin join => cases hstays
          | closeBody => cases hstays
          | _ => rfl
        rw [hchosen]
        exact ih.of_sources hcontinues.sources hcontinues.sourceCount hcontinues.aliasCount
      · cases call with
        | bind name origin join =>
            exact ih.bind origin join (List.subset_cons_self _ _)
              (List.forall_mem_cons.2 ⟨Nat.le_refl _, fun id hid => Nat.le_of_lt (ih.given id hid)⟩)
              fun hchosen => absurd List.mem_cons_self hchosen
        | openBody =>
            exact ih.of_sources (fun id => congrArg Body.sources (body_openBody d id)) rfl
              (Nat.le_refl _)
        | closeBody =>
            rw [chosen_note (fun _ _ _ => Call.noConfusion)]
            have hplan : (Call.run .closeBody d).2.plan = d.plan := closeBody_plan d
            exact ih.of_sources (fun id => by rw [hplan]) (by rw [hplan])
              (Nat.le_of_eq (by rw [hplan]))
        | _ => exact absurd rfl hstays

/-! ## New aliases -/

/-- Whether a caller has chosen an alias that a body binds. -/
def Account.chose (account : Account) (body : Body) (name : String) : Bool :=
  body.sources.any fun source => account.chosen.contains source.id && source.name = name

theorem Aliased.binds_freshAlias {account : Account} {d : Draft} (h : Aliased account.chosen d)
    (body : BodyId) :
    (d.plan.body body).binds (Builder.freshAlias d).1
      = account.chose (d.plan.body body) (Builder.freshAlias d).1 := by
  rw [Bool.eq_iff_iff]
  simp only [Body.binds, Account.chose, List.any_eq_true, Bool.and_eq_true, List.contains_iff_mem,
    decide_eq_true_eq]
  constructor
  · rintro ⟨source, hmem, hname⟩
    by_cases hchosen : source.id ∈ account.chosen
    · exact ⟨source, hmem, hchosen, hname⟩
    · exact absurd hname (h.ne_freshAlias hmem hchosen)
  · rintro ⟨source, hmem, -, hname⟩
    exact ⟨source, hmem, hname⟩

end Draft

/-! ## References -/

namespace Draft

/-- Bodies whose aliases are generated bind no alias of another body, unless the caller has chosen
it there. -/
theorem Aliased.binds_eq_false {chosen : List SourceId} {d : Draft} (h : Aliased chosen d)
    {body inner : BodyId} {position : Nat} {source : Source}
    (hi : (d.plan.body body).sources[position]? = some source) (hne : inner ≠ body)
    (hown : ∀ own ∈ (d.plan.body inner).sources, own.id ∉ chosen)
    (hchosen : source.id ∈ chosen → (d.plan.body inner).binds source.name = false) :
    (d.plan.body inner).binds source.name = false := by
  by_cases hsource : source.id ∈ chosen
  · exact hchosen hsource
  · rw [Body.binds, List.any_eq_false]
    intro own hmem hname
    obtain ⟨i, hown'⟩ := List.mem_iff_getElem?.1 hmem
    exact hne (h.apart inner i own hown' (hown own hmem) body position source hi hsource
      (of_decide_eq_true hname)).1

/-- A new alias is bound in a body only if a caller has chosen it there; so a source that is bound
to it is refused for its alias only then, and in bodies inside that bind generated aliases a
reference is taken for one to a source inside only if a caller has chosen the alias of its own. -/
theorem Recounted.generated_apart {account : Account} {held : List Expr} {d : Draft}
    (h : Recounted account held d) :
    (∀ body, (d.plan.body body).binds (Builder.freshAlias d).1
      = account.chose (d.plan.body body) (Builder.freshAlias d).1) ∧
    (∀ origin join, (Builder.bindFresh origin join d).2.scope.error
      = (d.scope.error.or (Builder.bindError? join (!d.body.sources.isEmpty))).or
          (if account.chose d.body (Builder.freshAlias d).1
            then some (.duplicateAlias (Builder.freshAlias d).1) else none)) ∧
    ∀ (ev : Evaluator) (inner outer : List Frame) (frame : Frame) (position : Nat)
      (source : Source) (id : ExprId) (fields : List String), ev.plan = d.plan →
      ((d.plan.body frame.body).sources.map Source.name).Nodup →
      (d.plan.body frame.body).sources[position]? = some source →
      (∀ f ∈ inner, f.body ≠ frame.body ∧
        (∀ own ∈ (d.plan.body f.body).sources, own.id ∉ account.chosen) ∧
        (source.id ∈ account.chosen → (d.plan.body f.body).binds source.name = false)) →
      ev.eval (inner ++ frame :: outer) (.reference id ⟨source.name, fields⟩)
        = ev.descend ⟨source.name, []⟩ (frame.env.getD position .undefined) fields := by
  have haliased := h.aliased
  refine ⟨haliased.binds_freshAlias, fun origin join => ?_, ?_⟩
  · have hbody := haliased.binds_freshAlias d.scope.body
    change (Builder.bind (Builder.freshAlias d).1 origin join
      (Builder.freshAlias d).2).2.scope.error = _
    rw [bind_scope]
    change (d.scope.error.or _).or (if (d.plan.body d.scope.body).binds _ then _ else none) = _
    rw [hbody]
    rfl
  · intro ev inner outer frame position source id fields hplan hnodup hi hinner
    have hbound : ev.bound source.name (inner ++ frame :: outer)
        = .ok (frame.env.getD position .undefined) := by
      refine ev.bound_append (fun f hf => ?_) (hplan ▸ Body.position?_of_nodup hnodup hi)
      obtain ⟨hne, hown, hchosen⟩ := hinner f hf
      rw [hplan]
      exact haliased.binds_eq_false hi hne hown hchosen
    rw [Evaluator.eval, Evaluator.lookup, hbound]
    rfl

/-- The rows of a collection under a chosen alias. -/
def under (name : String) : Draft :=
  (Builder.bind name (.collection ⟨0, "rows"⟩) none (Plan.openQuery {})).2

/-- The rows of a collection under a chosen alias, and inside the same ones under a generated
alias. -/
def underBoth (name : String) : Draft :=
  (Builder.bindFresh (.collection ⟨0, "rows"⟩) none (Builder.openBody (under name)).2).2

theorem recounted_under (name : String) : Recounted { chosen := [0] } [] (under name) :=
  .call .first (.bind name (.collection ⟨0, "rows"⟩) none)
    ⟨fun _ h => (by cases h), fun _ h => (by cases h; exact trivial)⟩

theorem recounted_underBoth (name : String) : Recounted { chosen := [0] } [] (underBoth name) :=
  .generated (.call (recounted_under name) .openBody
      ⟨fun _ h => (by cases h), fun _ h => (by cases h)⟩)
    (.collection ⟨0, "rows"⟩) none trivial

/-- Evaluates what a draft holds, with no rows to read. -/
def evaluator (d : Draft) : Evaluator where
  plan := d.plan
  policy := .undefined
  inputs := { rows := fun _ _ => .ok OrdMap.empty, subquery := fun _ _ => .ok [] }

/-- Frames of a body and of the body around it, each with one row of a field `x`. -/
def framesOf (inner outer : Int64) : List Frame :=
  [{ body := 1, env := [.record (.cons "x" (.int inner) .nil)] },
    { body := 0, env := [.record (.cons "x" (.int outer) .nil)] }]

theorem generated_apart_nested :
    Recounted { chosen := [0] } [] (underBoth "row") ∧
      (Builder.freshAlias (underBoth "row")).1 = "source2" ∧
      ((underBoth "row").plan.body 0).binds "source2" = false ∧
      (Builder.bindFresh (.collection ⟨0, "rows"⟩) (some .inner) (underBoth "row")).2.scope.error
        = none ∧
      (evaluator (underBoth "row")).eval (framesOf 5 1) (.reference 0 ⟨"row", ["x"]⟩)
        = .ok (.int 1) := by
  obtain ⟨hbinds, herror, heval⟩ :=
    Recounted.generated_apart (recounted_underBoth "row")
  have hfresh : (Builder.freshAlias (underBoth "row")).1 = "source2" := rfl
  refine ⟨recounted_underBoth "row", hfresh, ?_, ?_, ?_⟩
  · have := hbinds 0
    rw [hfresh] at this
    rw [this]
    decide +kernel
  · rw [herror]
    decide +kernel
  · refine (heval (evaluator (underBoth "row")) [{ body := 1, env := _ }] []
      { body := 0, env := _ } 0 ⟨0, "row", .collection ⟨0, "rows"⟩, none⟩ 0 ["x"] rfl
      (by decide +kernel) rfl ?_).trans rfl
    intro f hf
    obtain rfl := List.mem_singleton.1 hf
    refine ⟨Nat.one_ne_zero, fun own hown => ?_, fun _ => by decide +kernel⟩
    obtain rfl : own = ⟨1, "source1", .collection ⟨0, "rows"⟩, none⟩ := List.mem_singleton.1 hown
    decide

/-- A chosen alias is generated again: a source joined to it is refused for its alias, and a
reference to it is taken for one to the source of the body inside, whose row is another. -/
theorem generated_apart_fails :
    Recounted { chosen := [0] } [] (under "source1") ∧ (under "source1").scope.error = none ∧
      (Builder.bindFresh (.collection ⟨0, "rows"⟩) (some .inner) (under "source1")).2.scope.error
        = some (.duplicateAlias "source1") ∧
      Recounted { chosen := [0] } [] (underBoth "source1") ∧
      (underBoth "source1").scope.error = none ∧
      (evaluator (underBoth "source1")).eval (framesOf 5 1) (.reference 0 ⟨"source1", ["x"]⟩)
        = .ok (.int 5) :=
  ⟨recounted_under "source1", rfl, rfl, recounted_underBoth "source1", rfl, rfl⟩

end Draft

end LiveQuery
