import Mathlib.Logic.Relation
import LiveQuery.Graph.Walk
import LiveQuery.Proofs.Plan.Course

/-!
# Finished bodies

A body is finished without an error when a selection is set, its aliases are apart, all of its
sources but the first are joined, and every function it has called has a name that is known. An
error of a body becomes one of the body around it and at last one of its query, so a query that
ends without an error has finished bodies; but it may also read bodies of a query that ended with
one, since a caller can hold them.

**Invariant.** `Draft.Kept`: bodies that have ended are finished or known to have failed; while a
query is written, a body of it that has failed has left an error in a body around it.

**Results.** `Draft.Recounted.finished_of_accepted`: a body that a query reaches is finished, or it
failed in a query that was rejected. `Draft.finished_of_accepted_fails`: such a query is accepted.
-/

namespace LiveQuery

/-- The sources of a body are bound to different aliases, and all but the first are joined. -/
structure Body.Bound (body : Body) : Prop where
  apart : (body.sources.map Source.name).Nodup
  joined : ∀ i source, body.sources[i]? = some source → (source.join = none ↔ i = 0)

/-- A body is finished: its sources are bound and its selection is set. -/
structure Body.Finished (body : Body) : Prop extends body.Bound where
  selected : body.selection.isSome

namespace Body

theorem Bound.of_sources {body body' : Body} (h : body.Bound)
    (hsources : body'.sources = body.sources) :
    body'.Bound := by
  constructor
  · rw [hsources]
    exact h.apart
  · rw [hsources]
    exact h.joined

/-- A source is bound without an error. -/
theorem Bound.append {body : Body} (h : body.Bound) {source : Source}
    (hjoin : Builder.bindError? source.join (!body.sources.isEmpty) = none)
    (hname : body.binds source.name = false) :
    ({ body with sources := body.sources ++ [source] } : Body).Bound := by
  constructor
  · rw [List.map_append, List.map_singleton, List.nodup_append]
    refine ⟨h.apart, List.pairwise_singleton _ _, fun name hmem name' hmem' heq => ?_⟩
    obtain ⟨other, hother, hsame⟩ := List.mem_map.1 hmem
    obtain rfl := List.mem_singleton.1 hmem'
    rw [binds, List.any_eq_false] at hname
    exact hname other hother (decide_eq_true (hsame.trans heq))
  · intro i source' hi
    rcases Nat.lt_trichotomy i body.sources.length with hlt | heq | hgt
    · rw [List.getElem?_append_left hlt] at hi
      exact h.joined i source' hi
    · rw [heq, List.getElem?_concat_length] at hi
      obtain rfl := Option.some.inj hi
      rw [heq, List.length_eq_zero_iff]
      cases hnone : source.join <;> cases hempty : body.sources <;>
        simp_all [Builder.bindError?]
    · rw [List.getElem?_eq_none (by simp; omega)] at hi
      cases hi

theorem bound_empty : ({} : Body).Bound where
  apart := List.nodup_nil
  joined _ _ hi := by cases hi

end Body

namespace Draft

/-- The bodies being written, the innermost first. -/
def scopes (d : Draft) : List Scope :=
  d.scope :: d.outer

def opened (d : Draft) : List BodyId :=
  d.scopes.map Scope.body

/-- What is known of the bodies of a draft from an account of the calls. -/
structure Kept (account : Account) (d : Draft) : Prop where
  below : ∀ body ∈ d.opened, body < d.plan.bodies.length
  nested : d.opened.Pairwise (· > ·)
  begun : ∀ scope ∈ d.scopes, scope.error = none →
    (d.plan.body scope.body).Bound ∧ scope.body ∉ account.misnamed
  ended : ∀ body < d.plan.bodies.length, body ∉ d.opened → body ∉ account.failed →
    (d.plan.body body).Finished ∧ body ∉ account.misnamed
  misnamed : ∀ body ∈ account.misnamed, body < d.plan.bodies.length
  failed : ∀ body ∈ account.failed, body < d.plan.bodies.length ∧ body ∉ d.opened
  rejected : ∀ body ∈ account.failed, body ∉ account.rejected →
    (∃ around ∈ d.opened, around < body) ∧ ∃ scope ∈ d.scopes, scope.error.isSome

/-- A call goes on in the innermost body. -/
structure Proceeds (account : Account) (d : Draft) (account' : Account) (d' : Draft) : Prop where
  outer : d'.outer = d.outer
  scope : d'.scope.body = d.scope.body
  length : d'.plan.bodies.length = d.plan.bodies.length
  error : d'.scope.error = none → d.scope.error = none
  sources : ∀ id ≠ d.scope.body, (d'.plan.body id).sources = (d.plan.body id).sources
  selection : ∀ id, (d.plan.body id).selection.isSome → (d'.plan.body id).selection.isSome
  failed : account'.failed = account.failed
  rejected : account'.rejected = account.rejected
  misnamed : ∀ body ∈ account'.misnamed, body = d.scope.body ∨ body ∈ account.misnamed
  begun : d'.scope.error = none →
    ((d.plan.body d.scope.body).Bound → (d'.plan.body d.scope.body).Bound) ∧
      (d.scope.body ∉ account.misnamed → d.scope.body ∉ account'.misnamed)

namespace Kept

variable {account account' : Account} {d d' : Draft}

theorem mem_opened (d : Draft) : d.scope.body ∈ d.opened :=
  List.mem_cons_self

/-- The bodies around the innermost one have smaller numbers. -/
theorem outer_lt (h : Kept account d) {scope : Scope} (hmem : scope ∈ d.outer) :
    scope.body < d.scope.body :=
  (List.pairwise_cons.1 h.nested).1 _ (List.mem_map_of_mem hmem)

theorem proceeds (h : Kept account d) (hgo : Proceeds account d account' d') :
    Kept account' d' := by
  have hscopes : d'.scopes = d'.scope :: d.outer := congrArg (d'.scope :: ·) hgo.outer
  have hopened : d'.opened = d.opened := by
    rw [opened, hscopes, List.map_cons, hgo.scope]
    rfl
  constructor
  case below =>
    rw [hgo.length, hopened]
    exact h.below
  case nested =>
    rw [hopened]
    exact h.nested
  case begun =>
    rw [hscopes, List.forall_mem_cons]
    constructor
    · intro hnone
      obtain ⟨hbound, hknown⟩ := h.begun d.scope List.mem_cons_self (hgo.error hnone)
      rw [hgo.scope]
      exact ⟨(hgo.begun hnone).1 hbound, (hgo.begun hnone).2 hknown⟩
    · intro scope hmem hnone
      have hne : scope.body ≠ d.scope.body := Nat.ne_of_lt (h.outer_lt hmem)
      obtain ⟨hbound, hknown⟩ := h.begun scope (List.mem_cons_of_mem _ hmem) hnone
      exact ⟨hbound.of_sources (hgo.sources _ hne), fun hin =>
        (hgo.misnamed _ hin).elim hne hknown⟩
  case ended =>
    intro body hlt hclosed hkept
    rw [hgo.length] at hlt
    rw [hopened] at hclosed
    rw [hgo.failed] at hkept
    have hne : body ≠ d.scope.body := fun heq => hclosed (heq ▸ mem_opened d)
    obtain ⟨hfinished, hknown⟩ := h.ended body hlt hclosed hkept
    exact ⟨⟨hfinished.toBound.of_sources (hgo.sources _ hne), hgo.selection _ hfinished.selected⟩,
      fun hin => (hgo.misnamed _ hin).elim hne hknown⟩
  case misnamed =>
    intro body hmem
    rw [hgo.length]
    rcases hgo.misnamed body hmem with rfl | hmem
    · exact h.below _ (mem_opened d)
    · exact h.misnamed body hmem
  case failed =>
    rw [hgo.failed, hgo.length, hopened]
    exact h.failed
  case rejected =>
    intro body hmem hkept
    rw [hgo.failed] at hmem
    rw [hgo.rejected] at hkept
    obtain ⟨hbelow, scope, hscope, hfails⟩ := h.rejected body hmem hkept
    rw [hopened, hscopes]
    refine ⟨hbelow, ?_⟩
    rcases List.mem_cons.1 hscope with rfl | hscope
    · refine ⟨d'.scope, List.mem_cons_self, Option.isSome_iff_ne_none.2 fun hnone => ?_⟩
      rw [hgo.error hnone] at hfails
      cases hfails
    · exact ⟨scope, List.mem_cons_of_mem _ hscope, hfails⟩

theorem body_length (plan : Plan) : plan.body plan.bodies.length = {} := by
  simp [Plan.body]

/-- A body is opened inside the innermost one. -/
theorem openBody (h : Kept account d) : Kept account (Builder.openBody d).2 := by
  have hopened : (Builder.openBody d).2.opened = d.plan.bodies.length :: d.opened := rfl
  have hscopes : (Builder.openBody d).2.scopes = { body := d.plan.bodies.length } :: d.scopes := rfl
  have hlength : (Builder.openBody d).2.plan.bodies.length = d.plan.bodies.length + 1 :=
    List.length_append
  constructor
  case below =>
    rw [hopened, hlength, List.forall_mem_cons]
    exact ⟨Nat.lt_succ_self _, fun body hmem => Nat.lt_succ_of_lt (h.below body hmem)⟩
  case nested =>
    rw [hopened, List.pairwise_cons]
    exact ⟨h.below, h.nested⟩
  case begun =>
    rw [hscopes, List.forall_mem_cons]
    constructor
    · intro _
      rw [body_openBody, body_length]
      exact ⟨Body.bound_empty, fun hmem => Nat.lt_irrefl _ (h.misnamed _ hmem)⟩
    · intro scope hmem hnone
      rw [body_openBody]
      exact h.begun scope hmem hnone
  case ended =>
    intro body hlt hclosed hkept
    rw [hlength] at hlt
    rw [hopened, List.mem_cons, not_or] at hclosed
    rw [body_openBody]
    exact h.ended body (Nat.lt_of_le_of_ne (Nat.le_of_lt_succ hlt) hclosed.1) hclosed.2 hkept
  case misnamed =>
    intro body hmem
    rw [hlength]
    exact Nat.lt_succ_of_lt (h.misnamed body hmem)
  case failed =>
    intro body hmem
    obtain ⟨hlt, hclosed⟩ := h.failed body hmem
    rw [hlength, hopened, List.mem_cons, not_or]
    exact ⟨Nat.lt_succ_of_lt hlt, Nat.ne_of_lt hlt, hclosed⟩
  case rejected =>
    intro body hmem hkept
    obtain ⟨⟨around, haround, hlt⟩, scope, hscope, hfails⟩ := h.rejected body hmem hkept
    exact ⟨⟨around, List.mem_cons_of_mem _ haround, hlt⟩,
      scope, List.mem_cons_of_mem _ hscope, hfails⟩

/-! ## The ends of bodies -/

theorem outcome_eq_none {d : Draft} :
    d.outcome = none ↔ d.scope.error = none ∧ d.body.selection.isSome := by
  unfold outcome
  cases d.scope.error <;> cases d.body.selection <;> simp

theorem mem_failed_endBody {body : BodyId} :
    body ∈ (account.endBody d).failed ↔
      body ∈ account.failed ∨ d.outcome.isSome ∧ body = d.scope.body := by
  unfold Account.endBody
  split
  next hfails => simp [hfails, or_comm]
  next hfails => simp [hfails]

@[simp] theorem misnamed_endBody : (account.endBody d).misnamed = account.misnamed := by
  unfold Account.endBody
  split <;> rfl

@[simp] theorem rejected_endBody : (account.endBody d).rejected = account.rejected := by
  unfold Account.endBody
  split <;> rfl

@[simp] theorem failed_endQuery : (account.endQuery d).failed = (account.endBody d).failed := by
  unfold Account.endQuery
  split
  · rfl
  next hfails => rw [Account.endBody, if_neg hfails]

@[simp] theorem misnamed_endQuery : (account.endQuery d).misnamed = account.misnamed := by
  unfold Account.endQuery
  split
  · exact misnamed_endBody
  · rfl

theorem mem_rejected_endQuery (hlt : d.scope.body < d.plan.bodies.length) {body : BodyId} :
    body ∈ (account.endQuery d).rejected ↔ body ∈ account.rejected ∨
      d.outcome.isSome ∧ d.scope.body ≤ body ∧ body < d.plan.bodies.length := by
  unfold Account.endQuery
  split
  next hfails =>
    have hend : d.scope.body + (d.plan.bodies.length - d.scope.body) = d.plan.bodies.length :=
      Nat.add_sub_cancel' (Nat.le_of_lt hlt)
    rw [List.mem_append, List.mem_range'_1, hend, or_comm]
    simp [hfails]
  next hfails => simp [hfails]

/-- A body that ends without an error is finished. -/
theorem finished (h : Kept account d) (hends : d.outcome = none) :
    d.body.Finished ∧ d.scope.body ∉ account.misnamed := by
  obtain ⟨hnone, hselected⟩ := outcome_eq_none.1 hends
  obtain ⟨hbound, hknown⟩ := h.begun d.scope List.mem_cons_self hnone
  exact ⟨⟨hbound, hselected⟩, hknown⟩

/-- Among the bodies that have ended are those that had before, and the innermost one. -/
theorem finished_of_ended (h : Kept account d) {body : BodyId} (hlt : body < d.plan.bodies.length)
    (hclosed : body ∉ d.outer.map Scope.body) (hkept : body ∉ (account.endBody d).failed) :
    (d.plan.body body).Finished ∧ body ∉ account.misnamed := by
  rw [mem_failed_endBody, not_or] at hkept
  by_cases hinner : body = d.scope.body
  · rw [hinner]
    refine h.finished (Option.not_isSome_iff_eq_none.1 fun hfails => hkept.2 ⟨hfails, hinner⟩)
  · exact h.ended body hlt (fun hmem => (List.mem_cons.1 hmem).elim hinner hclosed) hkept.1

/-- An error of the innermost body, and one that a body inside has left in it. -/
theorem outcome_isSome (h : d.scope.error.isSome) : d.outcome.isSome := by
  obtain ⟨error, herror⟩ := Option.isSome_iff_exists.1 h
  rw [outcome, herror]
  rfl

/-- The innermost body is closed. -/
theorem closeBody (h : Kept account d) {scope : Scope} {outer : List Scope}
    (houter : d.outer = scope :: outer) : Kept (account.endBody d) (Builder.closeBody d).2 := by
  have hopened : d.opened = d.scope.body :: scope.body :: outer.map Scope.body := by
    rw [opened, scopes, houter]
    rfl
  have hinner : scope.body < d.scope.body := h.outer_lt (houter ▸ List.mem_cons_self)
  rw [closeBody_run houter]
  constructor
  case below =>
    intro body hmem
    exact h.below body (hopened ▸ List.mem_cons_of_mem _ hmem)
  case nested =>
    have hnested := h.nested
    rw [hopened] at hnested
    exact (List.pairwise_cons.1 hnested).2
  case begun =>
    rw [misnamed_endBody]
    intro scope' hmem hnone
    rcases List.mem_cons.1 hmem with rfl | hmem
    · exact h.begun scope (List.mem_cons_of_mem _ (houter ▸ List.mem_cons_self))
        (Option.or_eq_none_iff.1 hnone).1
    · exact h.begun scope' (List.mem_cons_of_mem _ (houter ▸ List.mem_cons_of_mem _ hmem)) hnone
  case ended =>
    intro body hlt hclosed hkept
    rw [misnamed_endBody]
    refine h.finished_of_ended hlt ?_ hkept
    rw [houter]
    exact hclosed
  case misnamed =>
    rw [misnamed_endBody]
    exact h.misnamed
  case failed =>
    intro body hmem
    have hnested := h.nested
    rw [hopened, List.pairwise_cons] at hnested
    rcases mem_failed_endBody.1 hmem with hmem | ⟨-, rfl⟩
    · obtain ⟨hlt, hclosed⟩ := h.failed body hmem
      rw [hopened] at hclosed
      exact ⟨hlt, fun hmem => hclosed (List.mem_cons_of_mem _ hmem)⟩
    · exact ⟨h.below _ (mem_opened d), fun hmem => Nat.lt_irrefl _ (hnested.1 _ hmem)⟩
  case rejected =>
    rw [rejected_endBody]
    intro body hmem hkept
    rcases mem_failed_endBody.1 hmem with hmem | ⟨hfails, rfl⟩
    · obtain ⟨⟨around, haround, hlt⟩, scope', hscope', hfails⟩ := h.rejected body hmem hkept
      constructor
      · rw [hopened] at haround
        rcases List.mem_cons.1 haround with rfl | haround
        · exact ⟨scope.body, List.mem_cons_self, Nat.lt_trans hinner hlt⟩
        · exact ⟨around, haround, hlt⟩
      · rw [scopes, houter] at hscope'
        rcases List.mem_cons.1 hscope' with rfl | hscope'
        · refine ⟨_, List.mem_cons_self, ?_⟩
          simp [outcome_isSome hfails]
        · rcases List.mem_cons.1 hscope' with rfl | hscope'
          · refine ⟨_, List.mem_cons_self, ?_⟩
            simp [hfails]
          · exact ⟨scope', List.mem_cons_of_mem _ hscope', hfails⟩
    · refine ⟨⟨scope.body, List.mem_cons_self, hinner⟩, _, List.mem_cons_self, ?_⟩
      simp [hfails]

/-- A query ends, and the next one begins. -/
theorem query (h : Kept account d) (hclosed : d.outer = []) :
    Kept (account.endQuery d) d.plan.openQuery := by
  have hopened : d.plan.openQuery.opened = [d.plan.bodies.length] := rfl
  have hlength : d.plan.openQuery.plan.bodies.length = d.plan.bodies.length + 1 :=
    List.length_append
  have hscope : d.scope.body < d.plan.bodies.length := h.below _ (mem_opened d)
  have hfailed : ∀ body ∈ (account.endBody d).failed, body < d.plan.bodies.length := by
    intro body hmem
    rcases mem_failed_endBody.1 hmem with hmem | ⟨-, rfl⟩
    · exact (h.failed body hmem).1
    · exact hscope
  constructor
  case below =>
    rw [hopened, hlength, List.forall_mem_singleton]
    exact Nat.lt_succ_self _
  case nested =>
    rw [hopened]
    exact List.pairwise_singleton _ _
  case begun =>
    rw [misnamed_endQuery]
    intro scope hmem _
    obtain rfl := List.mem_singleton.1 hmem
    rw [body_openQuery]
    change (d.plan.body d.plan.bodies.length).Bound ∧ d.plan.bodies.length ∉ account.misnamed
    rw [body_length]
    exact ⟨Body.bound_empty, fun hmem => Nat.lt_irrefl _ (h.misnamed _ hmem)⟩
  case ended =>
    intro body hlt hnew hkept
    rw [hlength] at hlt
    rw [hopened, List.mem_singleton] at hnew
    rw [failed_endQuery] at hkept
    rw [body_openQuery, misnamed_endQuery]
    refine h.finished_of_ended (Nat.lt_of_le_of_ne (Nat.le_of_lt_succ hlt) hnew) ?_ hkept
    rw [hclosed]
    exact List.not_mem_nil
  case misnamed =>
    intro body hmem
    rw [misnamed_endQuery] at hmem
    rw [hlength]
    exact Nat.lt_succ_of_lt (h.misnamed body hmem)
  case failed =>
    intro body hmem
    have hlt := hfailed body (failed_endQuery ▸ hmem)
    rw [hlength, hopened, List.mem_singleton]
    exact ⟨Nat.lt_succ_of_lt hlt, Nat.ne_of_lt hlt⟩
  case rejected =>
    intro body hmem hkept
    rw [failed_endQuery] at hmem
    refine absurd ((mem_rejected_endQuery hscope).2 ?_) hkept
    rcases mem_failed_endBody.1 hmem with hmem' | ⟨hfails, rfl⟩
    · by_cases hbefore : body ∈ account.rejected
      · exact .inl hbefore
      · obtain ⟨⟨around, haround, hlt⟩, scope, hscope, hfails⟩ := h.rejected body hmem' hbefore
        rw [opened, scopes, hclosed] at haround
        rw [scopes, hclosed] at hscope
        obtain rfl := List.mem_singleton.1 haround
        obtain rfl := List.mem_singleton.1 hscope
        exact .inr ⟨outcome_isSome hfails, Nat.le_of_lt hlt, hfailed body hmem⟩
    · exact .inr ⟨hfails, Nat.le_refl _, hscope⟩

end Kept

/-! ## Calls -/

namespace Proceeds

variable {account : Account} {d d' : Draft}

theorem of_continues (h : d.Continues d') : Proceeds account d account d' where
  outer := h.outer
  scope := h.scope
  length := h.length
  error hnone := by
    cases herror : d.scope.error with
    | none => rfl
    | some error =>
        have := h.error (by rw [herror]; rfl)
        rw [hnone] at this
        cases this
  sources id _ := h.sources id
  selection := h.selection
  failed := rfl
  rejected := rfl
  misnamed _ := .inr
  begun _ := ⟨fun hbound => hbound.of_sources (h.sources _), id⟩

/-- An unknown name is called, which is an error. -/
theorem of_misnamed (h : d.Continues d') (hfails : d'.scope.error.isSome) :
    Proceeds account d { account with misnamed := d.scope.body :: account.misnamed } d' :=
  { (of_continues h : Proceeds account d account d') with
    misnamed := fun _ hmem => List.mem_cons.1 hmem
    begun := fun hnone => by
      rw [hnone] at hfails
      cases hfails }

/-- A source is bound, without an error only if it is bound as it should be. -/
theorem bind (account : Account) (chosen : List SourceId) (name : String) (origin : Origin)
    (join : Option JoinKind) (d : Draft) :
    Proceeds account d { account with chosen } (Builder.bind name origin join d).2 where
  outer := bind_outer name origin join d
  scope := by rw [bind_scope]
  length := by rw [Builder.bind_plan, List.length_modify]
  error hnone := by
    rw [bind_scope] at hnone
    exact (Option.or_eq_none_iff.1 (Option.or_eq_none_iff.1 hnone).1).1
  sources id hne := by
    rcases body_bind name origin join d id with hsame | ⟨-, heq⟩
    · rw [hsame]
    · exact absurd heq hne
  selection id hsome := by
    rcases body_bind name origin join d id with hsame | ⟨hnew, -⟩
    · rwa [hsame]
    · rwa [hnew]
  failed := rfl
  rejected := rfl
  misnamed _ := .inr
  begun hnone := by
    refine ⟨fun hbound => ?_, fun hknown => hknown⟩
    rw [bind_scope] at hnone
    obtain ⟨hnone, hname⟩ := Option.or_eq_none_iff.1 hnone
    rcases body_bind name origin join d d.scope.body with hsame | ⟨hnew, -⟩
    · rwa [hsame]
    · rw [hnew]
      have hfree : d.body.binds name = false := by
        cases hbinds : d.body.binds name with
        | false => rfl
        | true =>
            rw [hbinds] at hname
            cases hname
      exact hbound.append (Option.or_eq_none_iff.1 hnone).2 hfree

end Proceeds

theorem callNamed_error {name : String} (h : Function.ofName? name = none) (args : List Operand)
    (d : Draft) : ((Call.callNamed name args).run d).2.scope.error.isSome := by
  have hrun : (Builder.callNamed name args d).2.scope.error
      = (d.fail (.unknownFunction name)).scope.error := by
    simp only [Builder.callNamed, h]
    rfl
  change (Builder.callNamed name args d).2.scope.error.isSome
  rw [hrun, fail, Option.isSome_or]
  exact Bool.or_true _

/-- A call that stays in the innermost body. -/
theorem Proceeds.note {account : Account} {call : Call} (h : call.stays = true) (d : Draft) :
    Proceeds account d (account.note d call) (call.run d).2 := by
  have hcontinues := Call.continues h d
  cases call with
  | callNamed name args =>
      cases hname : Function.ofName? name with
      | none =>
          have hnote : account.note d (.callNamed name args)
              = { account with misnamed := d.scope.body :: account.misnamed } := by
            simp [Account.note, hname]
          rw [hnote]
          exact .of_misnamed hcontinues (callNamed_error hname args d)
      | some function =>
          have hnote : account.note d (.callNamed name args) = account := by
            simp [Account.note, hname]
          rw [hnote]
          exact .of_continues hcontinues
  | bind name origin join => cases h
  | openBody => cases h
  | closeBody => cases h
  | _ => exact .of_continues hcontinues

/-- What an account says of the bodies stays true while they are written. -/
theorem Recounted.kept {account : Account} {held : List Expr} {d : Draft}
    (h : Recounted account held d) : Kept account d := by
  induction h with
  | first =>
      have hopened : (Plan.openQuery {}).opened = [0] := rfl
      constructor
      case below =>
        intro body hmem
        obtain rfl := List.mem_singleton.1 (hopened ▸ hmem)
        exact Nat.zero_lt_one
      case nested =>
        exact List.pairwise_singleton _ _
      case begun =>
        intro scope hmem _
        obtain rfl := List.mem_singleton.1 hmem
        exact ⟨Body.bound_empty, List.not_mem_nil⟩
      case ended =>
        intro body hlt hclosed
        exact absurd (hopened ▸ List.mem_singleton.2 (Nat.lt_one_iff.1 hlt)) hclosed
      all_goals
        intro body hmem
        cases hmem
  | query _ closed ih => exact ih.query closed
  | @generated account held d _ origin join allowed ih =>
      have hfresh : Kept account (Builder.freshAlias d).2 :=
        ih.proceeds (.of_continues (Builder.Stays.freshAlias d))
      exact hfresh.proceeds (.bind account account.chosen _ origin join _)
  | @call account held d _ call allowed ih =>
      by_cases hstays : call.stays = true
      · exact ih.proceeds (.note hstays d)
      · cases call with
        | bind name origin join => exact ih.proceeds (.bind account _ name origin join d)
        | openBody => exact ih.openBody
        | closeBody =>
            cases houter : d.outer with
            | nil =>
                have hnote : account.note d .closeBody = account := by
                  simp [Account.note, houter]
                have hrun : (Call.run .closeBody d).2 = d := closeBody_outermost houter
                rw [hnote, hrun]
                exact ih
            | cons scope outer =>
                have hnote : account.note d .closeBody = account.endBody d := by
                  simp [Account.note, houter]
                rw [hnote]
                exact ih.closeBody houter
        | _ => exact absurd rfl hstays

/-- A query that ends without an error reaches finished bodies that have called no function by an
unknown name, but for bodies that failed; these are bodies of a query that was rejected. -/
theorem Recounted.finished_of_accepted {account : Account} {held : List Expr} {d : Draft}
    (h : Recounted account held d) (closed : d.outer = []) (ends : d.outcome = none)
    {body : BodyId} (hreach : Relation.ReflTransGen d.plan.Holds d.scope.body body) :
    (body ∉ account.failed → (d.plan.body body).Finished ∧ body ∉ account.misnamed) ∧
      (body ∈ account.failed → body ∈ account.rejected) := by
  have hkept := h.kept
  have hlt : body < d.plan.bodies.length := by
    cases hreach with
    | refl => exact hkept.below _ (Kept.mem_opened d)
    | tail _ hholds => exact Plan.Written.lt_of_holds ⟨held, d, h.written, rfl⟩ hholds
  have hopened : d.opened = [d.scope.body] := by
    rw [opened, scopes, closed]
    rfl
  constructor
  · intro hbody
    by_cases hquery : body = d.scope.body
    · rw [hquery]
      exact hkept.finished ends
    · exact hkept.ended body hlt (by rw [hopened, List.mem_singleton]; exact hquery) hbody
  · intro hbody
    by_contra hnew
    obtain ⟨-, scope, hscope, hfails⟩ := hkept.rejected body hbody hnew
    rw [scopes, closed] at hscope
    obtain rfl := List.mem_singleton.1 hscope
    rw [(Kept.outcome_eq_none.1 ends).1] at hfails
    cases hfails

/-- A query of the rows of a collection, before its selection is set. -/
def unselected : Draft :=
  (Builder.bind "row" (.collection ⟨0, "rows"⟩) none (Plan.openQuery {})).2

/-- The query of a field of the rows. -/
def selected : Draft :=
  (Builder.select [.field "x" (.ref ⟨0, ⟨"row", ["x"]⟩⟩)] unselected).2

/-- A query of a field of what the first query of a draft puts out. -/
def readingFirst (d : Draft) : Draft :=
  (Builder.select [.field "x" (.ref ⟨1, ⟨"result", ["x"]⟩⟩)]
    (Builder.bind "result" (.query 0) none d.plan.openQuery).2).2

theorem recounted_unselected : Recounted { chosen := [0] } [] unselected :=
  .call .first (.bind "row" (.collection ⟨0, "rows"⟩) none)
    ⟨fun _ h => (by cases h), fun _ h => (by cases h; exact trivial)⟩

theorem held_select (name : String) (proxy : Proxy) (held : List Expr) (bodies : Nat) :
    (Call.select [.field name (.ref proxy)]).Held held bodies :=
  ⟨fun _ h => (by obtain rfl := List.mem_singleton.1 h; exact trivial), fun _ h => (by cases h)⟩

theorem recounted_selected : Recounted { chosen := [0] } [] selected :=
  .call recounted_unselected (.select [.field "x" (.ref ⟨0, ⟨"row", ["x"]⟩⟩)]) (held_select ..)

theorem recounted_readingFirst {account : Account} {d : Draft} (h : Recounted account [] d)
    (closed : d.outer = []) :
    Recounted { account.endQuery d with
      chosen := d.plan.sourceCount :: (account.endQuery d).chosen } [] (readingFirst d) := by
  have hfirst : 0 < d.plan.openQuery.plan.bodies.length := by
    change 0 < (d.plan.bodies ++ [({} : Body)]).length
    rw [List.length_append]
    exact Nat.succ_pos _
  have hbound := Recounted.call (.query h closed) (.bind "result" (.query 0) none)
    ⟨fun _ h => (by cases h), fun _ h => (by cases h; exact hfirst)⟩
  exact hbound.call (.select [.field "x" (.ref ⟨1, ⟨"result", ["x"]⟩⟩)]) (held_select ..)

theorem finished_of_accepted_reading :
    Recounted { chosen := [1, 0] } [] (readingFirst selected) ∧
      (readingFirst selected).outer = [] ∧ (readingFirst selected).outcome = none ∧
      Relation.ReflTransGen (readingFirst selected).plan.Holds
        (readingFirst selected).scope.body 0 ∧
      ((readingFirst selected).plan.body 0).Finished := by
  have hrecounted : Recounted { chosen := [1, 0] } [] (readingFirst selected) :=
    recounted_readingFirst recounted_selected rfl
  have hsource : (⟨1, "result", .query 0, none⟩ : Source) ∈
      ((readingFirst selected).plan.body (readingFirst selected).scope.body).sources :=
    List.mem_cons_self
  have hreach : Relation.ReflTransGen (readingFirst selected).plan.Holds
      (readingFirst selected).scope.body 0 := .single (.source hsource rfl)
  have hfinished := Recounted.finished_of_accepted hrecounted rfl rfl hreach
  exact ⟨hrecounted, rfl, rfl, hreach, (hfinished.1 List.not_mem_nil).1⟩

/-- A query is accepted that reads a body without a selection, which has been rejected. -/
theorem finished_of_accepted_fails :
    Recounted { chosen := [1, 0], failed := [0], rejected := [0] } [] (readingFirst unselected) ∧
      (readingFirst unselected).outer = [] ∧ (readingFirst unselected).outcome = none ∧
      (∃ g, (readingFirst unselected).plan.graph (readingFirst unselected).scope.body = .ok g) ∧
      Relation.ReflTransGen (readingFirst unselected).plan.Holds
        (readingFirst unselected).scope.body 0 ∧
      ¬((readingFirst unselected).plan.body 0).Finished := by
  refine ⟨recounted_readingFirst recounted_unselected rfl, rfl, rfl, ⟨_, rfl⟩, ?_, fun h => ?_⟩
  · have hsource : (⟨1, "result", .query 0, none⟩ : Source) ∈
        ((readingFirst unselected).plan.body (readingFirst unselected).scope.body).sources :=
      List.mem_cons_self
    exact .single (.source hsource rfl)
  · have hselected := h.selected
    revert hselected
    decide +kernel

end Draft

end LiveQuery
