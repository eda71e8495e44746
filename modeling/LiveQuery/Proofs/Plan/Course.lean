import LiveQuery.Proofs.Plan.Written

/-!
# The course of writing

Most calls on a draft stay in the innermost body and bind no source there. What such a call can do
is said once: it leaves the sources of all bodies as they are, a selection that is set stays set,
and an error that is recorded stays recorded.

An account is kept of the calls: which aliases the caller has chosen, where a function was called
by a name that no function has, which bodies ended with an error, and which belong to a query that
did.

**Results.** `Draft.Call.continues`: what a call does that stays in its body.
`Draft.Recounted.written`: every plan that is written with an account is written.
`Plan.Written.source_place`: a source is in one place of a plan.
-/

namespace LiveQuery

namespace Draft

/-- A draft goes on in the same body, where no source is bound. -/
structure Continues (d d' : Draft) : Prop where
  outer : d'.outer = d.outer
  scope : d'.scope.body = d.scope.body
  length : d'.plan.bodies.length = d.plan.bodies.length
  sources : ∀ id, (d'.plan.body id).sources = (d.plan.body id).sources
  selection : ∀ id, (d.plan.body id).selection.isSome → (d'.plan.body id).selection.isSome
  error : d.scope.error.isSome → d'.scope.error.isSome
  sourceCount : d'.plan.sourceCount = d.plan.sourceCount
  aliasCount : d.plan.aliasCount ≤ d'.plan.aliasCount

namespace Continues

variable {d d' d'' : Draft}

/-- The bodies and what is written in them stay. -/
theorem of_same (outer : d'.outer = d.outer) (scope : d'.scope = d.scope)
    (bodies : d'.plan.bodies = d.plan.bodies)
    (sourceCount : d'.plan.sourceCount = d.plan.sourceCount)
    (aliasCount : d.plan.aliasCount ≤ d'.plan.aliasCount) : d.Continues d' := by
  have hbody : ∀ id, d'.plan.body id = d.plan.body id := fun id => by
    simp only [Plan.body, bodies]
  constructor
  · exact outer
  · rw [scope]
  · rw [bodies]
  · intro id
    rw [hbody]
  · intro id h
    rwa [hbody]
  · intro h
    rwa [scope]
  · exact sourceCount
  · exact aliasCount

theorem refl (d : Draft) : d.Continues d :=
  .of_same rfl rfl rfl rfl (Nat.le_refl _)

theorem trans (h : d.Continues d') (h' : d'.Continues d'') : d.Continues d'' where
  outer := h'.outer.trans h.outer
  scope := h'.scope.trans h.scope
  length := h'.length.trans h.length
  sources id := (h'.sources id).trans (h.sources id)
  selection id hsome := h'.selection id (h.selection id hsome)
  error hsome := h'.error (h.error hsome)
  sourceCount := h'.sourceCount.trans h.sourceCount
  aliasCount := Nat.le_trans h.aliasCount h'.aliasCount

theorem fail (d : Draft) (error : BuildError) : d.Continues (d.fail error) where
  outer := rfl
  scope := rfl
  length := rfl
  sources _ := rfl
  selection _ h := h
  error h := by
    rw [Draft.fail, Option.isSome_or, h]
    rfl
  sourceCount := rfl
  aliasCount := Nat.le_refl _

end Continues

theorem body_modifyBody (d : Draft) (f : Body → Body) (id : BodyId) :
    (d.modifyBody f).plan.body id = d.plan.body id ∨
      (d.modifyBody f).plan.body id = f (d.plan.body id) ∧ id = d.scope.body := by
  simp only [modifyBody, Plan.body, List.getD_eq_getElem?_getD, List.getElem?_modify]
  cases d.plan.bodies[id]? with
  | none => exact .inl rfl
  | some body =>
      by_cases h : d.scope.body = id
      · right
        simp [h]
      · left
        simp [h]

/-- A clause of the innermost body is set. -/
theorem Continues.modifyBody (d : Draft) {f : Body → Body}
    (hsources : ∀ body, (f body).sources = body.sources)
    (hselection : ∀ body, body.selection.isSome → (f body).selection.isSome) :
    d.Continues (d.modifyBody f) where
  outer := rfl
  scope := rfl
  length := by simp [Draft.modifyBody]
  sources id := by
    rcases body_modifyBody d f id with h | ⟨h, _⟩
    · rw [h]
    · rw [h, hsources]
  selection id hsome := by
    rcases body_modifyBody d f id with h | ⟨h, _⟩
    · rwa [h]
    · rw [h]
      exact hselection _ hsome
  error h := h
  sourceCount := rfl
  aliasCount := Nat.le_refl _

end Draft

namespace Builder

open Draft

/-- An operation goes on in the innermost body, and binds no source. -/
def Stays {α : Type} (m : Builder α) : Prop :=
  ∀ d : Draft, d.Continues (m d).2

namespace Stays

variable {α β : Type}

theorem pure (a : α) : Stays (pure a) :=
  fun d => .refl d

theorem get : Stays get :=
  fun d => .refl d

theorem bind {m : Builder α} {f : α → Builder β} (hm : Stays m) (hf : ∀ a, Stays (f a)) :
    Stays (m >>= f) :=
  fun d => (hm d).trans (hf (m d).1 (m d).2)

theorem fail (error : BuildError) : Stays (fail error) :=
  fun d => .fail d error

theorem modifyBody {f : Body → Body} (hsources : ∀ body, (f body).sources = body.sources)
    (hselection : ∀ body, body.selection.isSome → (f body).selection.isSome) :
    Stays (modifyBody f) :=
  fun d => .modifyBody d hsources hselection

/-! ## Expressions -/

theorem newExpr (make : ExprId → Expr) : Stays (newExpr make) :=
  fun _ => .of_same rfl rfl rfl rfl (Nat.le_refl _)

theorem reference (proxy : Proxy) : Stays (reference proxy) := by
  intro d
  rw [reference_run]
  split
  · exact .refl d
  · exact .of_same rfl rfl rfl rfl (Nat.le_refl _)

theorem subquery (body : BodyId) : Stays (subquery body) := by
  intro d
  rw [subquery_run]
  split
  · exact .refl d
  · exact .of_same rfl rfl rfl rfl (Nat.le_refl _)

theorem operand (arg : Operand) : Stays (operand arg) := by
  cases arg with
  | expr e => exact .pure e
  | ref proxy => exact .reference proxy
  | value value => exact .newExpr _
  | query body => exact .subquery body

theorem operands (args : List Operand) : Stays (operands args) := by
  induction args with
  | nil => exact .pure _
  | cons arg rest ih => exact (operand arg).bind fun _ => ih.bind fun _ => .pure _

theorem call (function : Function) (args : List Operand) : Stays (call function args) :=
  (operands args).bind fun _ => .newExpr _

theorem callNamed (name : String) (args : List Operand) : Stays (callNamed name args) := by
  unfold Builder.callNamed
  cases Function.ofName? name with
  | some function => exact .call function args
  | none => exact (fail _).bind fun _ => .newExpr _

theorem aggregate (function : Aggregate) (args : List Operand) : Stays (aggregate function args) :=
  (operands args).bind fun _ => .newExpr _

theorem conjoin (existing : Option Expr) (cond : Expr) : Stays (conjoin existing cond) := by
  cases existing with
  | some existing => exact .call .and _
  | none => exact .pure cond

/-! ## Clauses -/

theorem filter (cond : Operand) : Stays (filter cond) :=
  (operand cond).bind fun _ => get.bind fun _ => (conjoin _ _).bind fun _ =>
    .modifyBody (fun _ => rfl) fun _ h => h

theorem on (proxy : Proxy) (cond : Operand) : Stays (on proxy cond) := by
  intro d
  have hcond := operand cond d
  rw [on_run]
  split
  next => exact hcond.trans (.fail _ _)
  next =>
    split
    next => exact hcond.trans (filter _ _)
    next =>
      exact hcond.trans ((conjoin _ _ _).trans (.modifyBody _ (fun _ => rfl) fun _ h => h))

theorem onFields (proxy : Proxy) (fields : List (String × Operand)) :
    Stays (onFields proxy fields) := by
  induction fields with
  | nil => exact .pure _
  | cons entry rest ih => exact (call .eq _).bind fun _ => (on proxy _).bind fun _ => ih

theorem markSpread (proxy : Proxy) : Stays (markSpread proxy) := by
  unfold Builder.markSpread
  split
  · refine .modifyBody (fun body => ?_) fun body h => ?_
    · split <;> rfl
    · split <;> exact h
  · exact .pure _

theorem spread (proxy : Proxy) : Stays (spread proxy) :=
  (markSpread proxy).bind fun _ => .pure _

theorem selectFields (items : List SelectItem) : Stays (selectFields items) := by
  induction items with
  | nil => exact .pure _
  | cons item rest ih =>
      cases item with
      | field name value => exact (operand value).bind fun _ => ih.bind fun _ => .pure _
      | spread value => exact (operand value).bind fun _ => ih.bind fun _ => .pure _

theorem setSelection (selection : Selection) : Stays (setSelection selection) := by
  intro d
  change d.Continues ((if d.body.selection.isSome then Builder.fail .selectionRedefined
    else Builder.modifyBody fun body => { body with selection := some selection } :
      Builder Unit) d).2
  split
  · exact .fail d _
  · exact .modifyBody d (fun _ => rfl) fun _ _ => rfl

theorem select (items : List SelectItem) : Stays (select items) :=
  (selectFields items).bind fun _ => .setSelection _

theorem selectValue (value : Operand) : Stays (selectValue value) := by
  have hset : Stays (do Builder.setSelection (.value (← Builder.operand value))) :=
    (operand value).bind fun _ => .setSelection _
  cases value with
  | ref proxy => exact (markSpread proxy).bind fun _ => hset
  | expr e => exact hset
  | value value => exact hset
  | query body => exact hset

theorem groupBy (keys : List Operand) : Stays (groupBy keys) :=
  (operands keys).bind fun _ => .modifyBody (fun _ => rfl) fun _ h => h

theorem having (cond : Operand) : Stays (having cond) :=
  (operand cond).bind fun _ => get.bind fun _ => (conjoin _ _).bind fun _ =>
    .modifyBody (fun _ => rfl) fun _ h => h

theorem orderBy (value : Operand) (direction : Direction) : Stays (orderBy value direction) :=
  (operand value).bind fun _ => .modifyBody (fun _ => rfl) fun _ h => h

theorem freshAlias : Stays freshAlias :=
  fun _ => .of_same rfl rfl rfl rfl (Nat.le_succ _)

end Stays

/-- Binds a source to a new alias. -/
def bindFresh (origin : Origin) (join : Option JoinKind) : Builder Proxy := do
  bind (← freshAlias) origin join

end Builder

namespace Draft

/-- Whether a call stays in the innermost body and binds no source there. -/
def Call.stays : Call → Bool
  | bind .. => false
  | openBody => false
  | closeBody => false
  | _ => true

theorem Call.continues {call : Call} (h : call.stays = true) (d : Draft) :
    d.Continues (call.run d).2 := by
  have done {α : Type} {m : Builder α} {f : α → List Expr} (hm : Builder.Stays m) :
      Builder.Stays (do return f (← m)) := hm.bind fun _ => .pure _
  cases call with
  | bind name origin join => cases h
  | openBody => cases h
  | closeBody => cases h
  | expression operand => exact done (f := fun e => [e]) (.operand operand) d
  | call function args => exact done (f := fun e => [e]) (.call function args) d
  | callNamed name args => exact done (f := fun e => [e]) (.callNamed name args) d
  | aggregate function args => exact done (f := fun e => [e]) (.aggregate function args) d
  | freshAlias => exact done (f := fun _ => []) .freshAlias d
  | filter cond => exact done (f := fun _ => []) (.filter cond) d
  | on proxy cond => exact done (f := fun _ => []) (.on proxy cond) d
  | onFields proxy fields => exact done (f := fun _ => []) (.onFields proxy fields) d
  | spread proxy => exact done (f := fun _ => []) (.spread proxy) d
  | select items => exact done (f := fun _ => []) (.select items) d
  | selectValue value => exact done (f := fun _ => []) (.selectValue value) d
  | groupBy keys => exact done (f := fun _ => []) (.groupBy keys) d
  | having cond => exact done (f := fun _ => []) (.having cond) d
  | orderBy value direction => exact done (f := fun _ => []) (.orderBy value direction) d
  | limit n => exact .modifyBody d (fun _ => rfl) fun _ h => h
  | offset n => exact .modifyBody d (fun _ => rfl) fun _ h => h
  | distinct => exact .modifyBody d (fun _ => rfl) fun _ h => h

/-! ## The other calls -/

/-- A body that has just been opened is empty, as one that is not there. -/
theorem body_append_empty (plan : Plan) (id : BodyId) :
    (plan.bodies ++ [({} : Body)]).getD id {} = plan.body id := by
  rw [Plan.body, List.getD_eq_getElem?_getD, List.getD_eq_getElem?_getD]
  rcases Nat.lt_or_ge id plan.bodies.length with h | h
  · rw [List.getElem?_append_left h]
  · rw [List.getElem?_append_right h, List.getElem?_eq_none h]
    rcases Nat.eq_zero_or_pos (id - plan.bodies.length) with h | h
    · rw [h]
      rfl
    · rw [List.getElem?_eq_none h]

@[simp] theorem body_openQuery (plan : Plan) (id : BodyId) :
    plan.openQuery.plan.body id = plan.body id :=
  body_append_empty plan id

@[simp] theorem body_openBody (d : Draft) (id : BodyId) :
    (Builder.openBody d).2.plan.body id = d.plan.body id :=
  body_append_empty d.plan id

theorem body_bind (name : String) (origin : Origin) (join : Option JoinKind) (d : Draft)
    (id : BodyId) :
    (Builder.bind name origin join d).2.plan.body id = d.plan.body id ∨
      (Builder.bind name origin join d).2.plan.body id = { d.plan.body id with
          sources := (d.plan.body id).sources ++ [⟨d.plan.sourceCount, name, origin, join⟩] } ∧
        id = d.scope.body := by
  have hbody : (Builder.bind name origin join d).2.plan.body id
      = (d.modifyBody fun body => { body with
          sources := body.sources ++ [⟨d.plan.sourceCount, name, origin, join⟩] }).plan.body
            id := by
    rw [Builder.bind_plan]
    rfl
  rw [hbody]
  exact body_modifyBody d _ id

/-- A source of a body was there before a source is bound, or it is that one, at the end of the
innermost body. -/
theorem getElem?_sources_bind {name : String} {origin : Origin} {join : Option JoinKind} {d : Draft}
    {body : BodyId} {i : Nat} {source : Source}
    (hi : ((Builder.bind name origin join d).2.plan.body body).sources[i]? = some source) :
    (d.plan.body body).sources[i]? = some source ∨
      (source = ⟨d.plan.sourceCount, name, origin, join⟩ ∧ body = d.scope.body ∧
        i = (d.plan.body body).sources.length) := by
  rcases body_bind name origin join d body with hsame | ⟨hnew, hbody⟩
  · rw [hsame] at hi
    exact .inl hi
  · rw [hnew] at hi
    rcases Nat.lt_trichotomy i (d.plan.body body).sources.length with hlt | heq | hgt
    · rw [List.getElem?_append_left hlt] at hi
      exact .inl hi
    · rw [heq, List.getElem?_concat_length] at hi
      exact .inr ⟨(Option.some.inj hi).symm, hbody, heq⟩
    · rw [List.getElem?_eq_none (by simp; omega)] at hi
      cases hi

/-- Binding a source records an error when it is joined and none is bound, or the reverse, and when
its alias is bound. -/
theorem bind_scope (name : String) (origin : Origin) (join : Option JoinKind) (d : Draft) :
    (Builder.bind name origin join d).2.scope = { d.scope with
      error := (d.scope.error.or (Builder.bindError? join (!d.body.sources.isEmpty))).or
        (if d.body.binds name then some (.duplicateAlias name) else none) } := by
  obtain ⟨plan, ⟨body, error⟩, outer⟩ := d
  simp only [Builder.bind, Bind.bind, StateT.bind, get, getThe, MonadStateOf.get, StateT.get,
    Pure.pure]
  generalize Builder.bindError? join _ = misplaced
  generalize Body.binds _ name = again
  cases misplaced <;> cases again <;> cases error <;> rfl

theorem bind_outer (name : String) (origin : Origin) (join : Option JoinKind) (d : Draft) :
    (Builder.bind name origin join d).2.outer = d.outer := by
  simp only [Builder.bind, Bind.bind, StateT.bind, get, getThe, MonadStateOf.get, StateT.get,
    Pure.pure]
  cases Builder.bindError? join (!d.body.sources.isEmpty) <;> cases d.body.binds name <;> rfl

/-- Closing a body hands its error to the body around it. -/
theorem closeBody_run {d : Draft} {scope : Scope} {outer : List Scope}
    (h : d.outer = scope :: outer) :
    (Builder.closeBody d).2 =
      { d with scope := { scope with error := scope.error.or d.outcome }, outer } := by
  obtain ⟨plan, inner, _⟩ := d
  obtain ⟨body, error⟩ := scope
  subst h
  simp only [Builder.closeBody, Bind.bind, StateT.bind, get, getThe, MonadStateOf.get, StateT.get,
    Pure.pure]
  cases Draft.outcome { plan, scope := inner, outer := ⟨body, error⟩ :: outer } <;>
    cases error <;> rfl

theorem closeBody_outermost {d : Draft} (h : d.outer = []) : (Builder.closeBody d).2 = d := by
  obtain ⟨plan, inner, _⟩ := d
  subst h
  rfl

theorem closeBody_plan (d : Draft) : (Builder.closeBody d).2.plan = d.plan := by
  cases houter : d.outer with
  | nil => rw [closeBody_outermost houter]
  | cons scope outer => rw [closeBody_run houter]

/-! ## Accounts -/

/-- What is known of the calls that have written a plan: the sources whose aliases the caller has
chosen, the bodies in which a function was called by an unknown name, those that ended with an
error, and those of a query that did. -/
structure Account where
  chosen : List SourceId := []
  misnamed : List BodyId := []
  failed : List BodyId := []
  rejected : List BodyId := []

namespace Account

/-- The innermost body ends, with an error or without. -/
def endBody (account : Account) (d : Draft) : Account :=
  if d.outcome.isSome then { account with failed := d.scope.body :: account.failed } else account

/-- A query ends; with an error it is rejected, and all bodies that were opened in it. -/
def endQuery (account : Account) (d : Draft) : Account :=
  if d.outcome.isSome then
    { account.endBody d with
      rejected :=
        List.range' d.scope.body (d.plan.bodies.length - d.scope.body) ++ account.rejected }
  else account

/-- A call is made. -/
def note (account : Account) (d : Draft) : Call → Account
  | .bind _ _ _ => { account with chosen := d.plan.sourceCount :: account.chosen }
  | .callNamed name _ =>
      if (Function.ofName? name).isNone then
        { account with misnamed := d.scope.body :: account.misnamed }
      else account
  | .closeBody => if d.outer.isEmpty then account else account.endBody d
  | _ => account

end Account

/-- The drafts that calls lead to, with an account of them. The alias of a source is chosen by the
caller, or generated. -/
inductive Recounted : Account → List Expr → Draft → Prop
  | first : Recounted {} [] (Plan.openQuery {})
  | query {account : Account} {held : List Expr} {d : Draft} (before : Recounted account held d)
      (closed : d.outer = []) : Recounted (account.endQuery d) held d.plan.openQuery
  | generated {account : Account} {held : List Expr} {d : Draft} (before : Recounted account held d)
      (origin : Origin) (join : Option JoinKind) (allowed : origin.Held d.plan.bodies.length) :
      Recounted account held (Builder.bindFresh origin join d).2
  | call {account : Account} {held : List Expr} {d : Draft} (before : Recounted account held d)
      (call : Call) (allowed : call.Held held d.plan.bodies.length) :
      Recounted (account.note d call) ((call.run d).1 ++ held) (call.run d).2

theorem Recounted.written {account : Account} {held : List Expr} {d : Draft}
    (h : Recounted account held d) : Written held d := by
  induction h with
  | first => exact .first
  | query _ closed ih => exact ih.query closed
  | call _ call allowed ih => exact ih.call call allowed
  | @generated account held d _ origin join allowed ih =>
      have hfresh := ih.call .freshAlias ⟨fun _ h => (by cases h), fun _ h => (by cases h)⟩
      have horigin : (Call.bind (Builder.freshAlias d).1 origin join).Held held
          d.plan.bodies.length :=
        ⟨fun _ h => (by cases h), fun _ h => (by cases h; exact allowed)⟩
      exact hfresh.call (.bind (Builder.freshAlias d).1 origin join) horigin

/-! ## The places of sources -/

/-- Each source of a draft is in one place of one body, under a number that was given out. -/
structure Placed (d : Draft) : Prop where
  given : ∀ (body : BodyId) (i : Nat) (source : Source),
    (d.plan.body body).sources[i]? = some source → source.id < d.plan.sourceCount
  apart : ∀ (body : BodyId) (i : Nat) (source : Source),
    (d.plan.body body).sources[i]? = some source →
    ∀ (body' : BodyId) (i' : Nat) (source' : Source),
      (d.plan.body body').sources[i']? = some source' → source.id = source'.id →
        body = body' ∧ i = i'

namespace Placed

variable {d d' : Draft}

theorem of_sources (h : Placed d)
    (sources : ∀ id, (d'.plan.body id).sources = (d.plan.body id).sources)
    (sourceCount : d'.plan.sourceCount = d.plan.sourceCount) : Placed d' where
  given body i source hi := by
    rw [sources] at hi
    rw [sourceCount]
    exact h.given body i source hi
  apart body i source hi body' i' source' hi' := by
    rw [sources] at hi hi'
    exact h.apart body i source hi body' i' source' hi'

theorem bind (h : Placed d) (name : String) (origin : Origin) (join : Option JoinKind) :
    Placed (Builder.bind name origin join d).2 where
  given body i source hi := by
    rw [Builder.bind_plan]
    rcases getElem?_sources_bind hi with hi | ⟨rfl, -, -⟩
    · exact Nat.lt_succ_of_lt (h.given body i source hi)
    · exact Nat.lt_succ_self _
  apart body i source hi body' i' source' hi' hid := by
    rcases getElem?_sources_bind hi with hi | ⟨rfl, hbody, hi⟩ <;>
      rcases getElem?_sources_bind hi' with hi' | ⟨rfl, hbody', hi'⟩
    · exact h.apart body i source hi body' i' source' hi' hid
    · exact absurd hid (Nat.ne_of_lt (h.given body i source hi))
    · exact absurd hid.symm (Nat.ne_of_lt (h.given body' i' source' hi'))
    · obtain rfl := hbody.trans hbody'.symm
      exact ⟨rfl, hi.trans hi'.symm⟩

end Placed

/-- Binding a source adds it in one place, and no other call changes the sources. -/
theorem Written.placed {held : List Expr} {d : Draft} (h : Written held d) : Placed d := by
  induction h with
  | first =>
      have hnone (body : BodyId) : ((Plan.openQuery {}).plan.body body).sources = [] := by
        rw [body_openQuery]
        rfl
      constructor <;> intro body i source hi <;> rw [hnone] at hi <;> cases hi
  | query _ _ ih => exact ih.of_sources (fun id => by rw [body_openQuery]) rfl
  | @call held d _ call _ ih =>
      by_cases hstays : call.stays = true
      · have hcontinues := Call.continues hstays d
        exact ih.of_sources hcontinues.sources hcontinues.sourceCount
      · cases call with
        | bind name origin join => exact ih.bind name origin join
        | openBody => exact ih.of_sources (fun id => congrArg Body.sources (body_openBody d id)) rfl
        | closeBody =>
            have hplan : (Call.run .closeBody d).2.plan = d.plan := closeBody_plan d
            exact ih.of_sources (fun id => by rw [hplan]) (by rw [hplan])
        | _ => exact absurd rfl hstays

end Draft

/-- The number of a source tells where it is. -/
theorem Plan.Written.source_place {plan : Plan} (h : plan.Written) {body body' : BodyId} {i i' : Nat}
    {source source' : Source} (hi : (plan.body body).sources[i]? = some source)
    (hi' : (plan.body body').sources[i']? = some source') (hid : source.id = source'.id) :
    body = body' ∧ i = i' := by
  obtain ⟨held, d, hwritten, rfl⟩ := h
  exact hwritten.placed.apart body i source hi body' i' source' hi' hid

end LiveQuery
