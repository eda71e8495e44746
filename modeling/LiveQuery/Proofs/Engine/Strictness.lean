import LiveQuery.Proofs.Engine.Nesting
import LiveQuery.Proofs.View.Strictness

/-!
# Strict engines

Two engines of one query, one of them strict, are in the same state after the same calls, up to
their policies, as long as none of these fails in the strict one.

**Results.** `Engine.strict_refines`: what a strict engine answers and puts out, and what a strict
evaluation gives, is the same under the other policy.
-/

namespace LiveQuery

namespace Engine

/-- The engine with another policy. -/
def under (e : Engine) (policy : FieldPolicy) : Engine :=
  { e with policy }

/-- What an engine is asked for: to load contents of its collections, or to apply a batch. -/
inductive Request where
  | load (contents : CollectionId → Rows)
  | apply (collection : CollectionId) (batch : List Change)

/-- Does what is asked for, and gives the changes of the output that are told. -/
def serve : Request → Running (List Change)
  | .load contents => do
      load contents
      return []
  | .apply collection batch => apply collection batch

/-- What an engine tells and puts out at each request, up to the first one that fails. -/
def answers (e : Engine) : List Request → List (List Change × List (Key × Row))
  | [] => []
  | request :: rest =>
      match serve request e with
      | .ok changes e => (changes, e.snapshot) :: e.answers rest
      | .error _ _ => []

section Under

variable (e : Engine) (policy : FieldPolicy)

@[simp] theorem plan_under : (e.under policy).plan = e.plan := rfl

@[simp] theorem policy_under : (e.under policy).policy = policy := rfl

@[simp] theorem query_under : (e.under policy).query = e.query := rfl

@[simp] theorem feeds_under : (e.under policy).feeds = e.feeds := rfl

@[simp] theorem views_under : (e.under policy).views = e.views := rfl

@[simp] theorem blueprint_under (id : BodyId) : (e.under policy).blueprint id = e.blueprint id :=
  rfl

end Under

variable {e e' : Engine} (policy : FieldPolicy)

/-! ## Evaluation -/

/-- A body that is evaluated within others comes out the same if its view does. -/
theorem refines_viewWithin {inputs inputs' : Inputs} {id : BodyId} {outer : List Frame}
    (hsame : e'.blueprint id = e.blueprint id)
    (h : Upkeep.Refines
      ((e.blueprint id).rederive { plan := e.plan, policy := e.policy, inputs } outer)
      ((e.blueprint id).rederive { plan := e'.plan, policy := e'.policy, inputs := inputs' } outer)) :
    Except.Refines (e.viewWithin inputs id outer) (e'.viewWithin inputs' id outer) := by
  intro view hview
  unfold viewWithin at hview ⊢
  rw [hsame]
  dsimp only at hview ⊢
  split at hview
  next hrun =>
    rw [h _ _ _ hrun]
    exact hview
  · cases hview

/-- What is read of a body is the same if it comes out the same. -/
theorem refines_inputsStep {inputs inputs' : Inputs} {id : BodyId}
    (h : ∀ outer, Except.Refines (e.viewWithin inputs id outer) (e'.viewWithin inputs' id outer))
    (hviews : e'.views = e.views) (hsame : e'.blueprint id = e.blueprint id) (outer : List Frame) :
    Except.Refines ((e.inputsStep inputs).subquery id outer)
        ((e'.inputsStep inputs').subquery id outer) ∧
      ∀ source, source.origin = .query id →
        Except.Refines ((e.inputsStep inputs).rows source outer)
          ((e'.inputsStep inputs').rows source outer) := by
  refine ⟨?_, fun source horigin => ?_⟩
  · simp only [inputsStep, hviews, hsame]
    cases e.views.get? id with
    | some view => exact .refl _
    | none => exact (h outer).bind fun _ => .refl _
  · simp only [inputsStep, horigin, hviews]
    cases e.views.get? id with
    | some view => exact .refl _
    | none =>
        cases outer with
        | nil => exact .refl _
        | cons frame outer => exact (h _).map _

section Evaluation

variable (strict : e.policy = .strict)

include strict

theorem refines_settle (error : EvalError) :
    Except.Refines (e.policy.settle error) (policy.settle error) := by
  rw [strict]
  exact policy.refines_settle error

/-- Evaluation down to a depth, by induction on the depth. -/
theorem refines_within (depth : Nat) :
    Evaluator.Refines ⟨e.plan, e.policy, e.inputsWithin depth⟩
      ⟨e.plan, policy, (e.under policy).inputsWithin depth⟩ := by
  induction depth with
  | zero => exact ⟨rfl, refines_settle policy strict, fun _ _ => .refl _, fun _ _ => .refl _⟩
  | succ depth ih =>
      have hview (id : BodyId) (outer : List Frame) :
          Except.Refines (e.viewWithin (e.inputsWithin depth) id outer)
            ((e.under policy).viewWithin ((e.under policy).inputsWithin depth) id outer) :=
        refines_viewWithin rfl (Blueprint.refines_rederive ih (e.blueprint id) outer)
      refine ⟨rfl, refines_settle policy strict, fun source outer => ?_, fun id outer =>
        (refines_inputsStep (hview id) rfl rfl outer).1⟩
      cases horigin : source.origin with
      | collection ref =>
          simp only [inputsWithin, horigin]
          exact .refl _
      | query id => exact (refines_inputsStep (hview id) rfl rfl outer).2 source horigin

theorem refines_evaluator : e.evaluator.Refines (e.under policy).evaluator :=
  refines_within policy strict e.plan.depth

end Evaluation

theorem refines_meets {ev ev' : Evaluator} (h : ev.Refines ev') (frames : List Frame)
    (conds : List Expr) : Except.Refines (meets ev frames conds) (meets ev' frames conds) := by
  induction conds with
  | nil => exact .refl _
  | cons cond rest ih =>
      refine .bind (h.holds frames cond) fun met => ?_
      split
      · exact ih
      · exact .refl _

/-! ## Feeds -/

section Feeds

variable (strict : e.policy = .strict)

include strict

theorem refines_passes (feed : Feed) (row : Row) :
    Except.Refines (e.passes feed row) ((e.under policy).passes feed row) :=
  refines_meets (refines_evaluator policy strict) _ _

theorem refines_passing (feed : Feed) (entries : List (Key × Row)) :
    Except.Refines (e.passing feed entries) ((e.under policy).passing feed entries) := by
  induction entries with
  | nil => exact .refl _
  | cons entry rest ih =>
      exact .bind (refines_passes policy strict feed entry.2) fun _ => .bind ih fun _ => .refl _

theorem refines_loadAll (contents : CollectionId → Rows) (feeds : List (SourceId × Feed)) :
    Except.Refines (e.loadAll contents feeds) ((e.under policy).loadAll contents feeds) := by
  induction feeds with
  | nil => exact .refl _
  | cons entry rest ih =>
      exact .bind (refines_passing policy strict entry.2 _) fun _ => .bind ih fun _ => .refl _

theorem refines_feedWrites (feed : Feed) (batch : List Change) :
    Except.Refines (e.feedWrites feed batch) ((e.under policy).feedWrites feed batch) := by
  induction batch with
  | nil => exact .refl _
  | cons change rest ih =>
      unfold feedWrites
      split
      · exact .bind (refines_passes policy strict feed change.row) fun _ =>
          .bind ih fun _ => .refl _
      · exact .bind (.refl _) fun _ => .bind ih fun _ => .refl _

theorem refines_writeFeeds (collection : CollectionId) (batch : List Change)
    (feeds : List (SourceId × Feed)) :
    Except.Refines (e.writeFeeds collection batch feeds)
      ((e.under policy).writeFeeds collection batch feeds) := by
  induction feeds with
  | nil => exact .refl _
  | cons entry rest ih =>
      unfold writeFeeds
      split
      · exact .bind (refines_feedWrites policy strict entry.2 batch) fun _ =>
          .bind ih fun _ => .refl _
      · exact .bind (.refl _) fun _ => .bind ih fun _ => .refl _

/-! ## Views -/

theorem refines_updateView (changed : Changed) (id : BodyId) :
    Upkeep.Refines (e.updateView changed id) ((e.under policy).updateView changed id) := by
  have hev := refines_evaluator policy strict
  have hpositions : (e.under policy).changedPositions changed id = e.changedPositions changed id :=
    rfl
  unfold updateView
  simp only [plan_under, blueprint_under, hpositions]
  split
  · split
    · exact .refl _
    · exact Blueprint.refines_follow hev (e.blueprint id) _
  · exact Blueprint.refines_rederive hev (e.blueprint id) []

omit strict in
theorem startViews_under (ids : List BodyId) {e e' : Engine} (strict : e.policy = .strict)
    (h : startViews ids e = .ok () e') :
    startViews ids (e.under policy) = .ok () (e'.under policy) := by
  induction ids generalizing e with
  | nil =>
      cases h
      rfl
  | cons id rest ih =>
      rw [startViews_cons] at h ⊢
      rw [views_under, blueprint_under]
      cases hview : e.views.get? id with
      | none =>
          simp only [hview] at h ⊢
          exact ih strict h
      | some view =>
          simp only [hview] at h ⊢
          split at h
          · cases h
          next changes after hrun =>
            rw [Blueprint.refines_rederive (refines_evaluator policy strict) _ [] _ _ _ hrun]
            exact ih (e := e.setView id after) strict h

omit strict in
theorem updateViews_under (ids : List BodyId) (changed : Changed) (output : List Change)
    {e e' : Engine} {changes : List Change} (strict : e.policy = .strict)
    (h : updateViews changed output ids e = .ok changes e') :
    updateViews changed output ids (e.under policy) = .ok changes (e'.under policy) := by
  induction ids generalizing changed output e with
  | nil =>
      cases h
      rfl
  | cons id rest ih =>
      rw [updateViews_cons] at h ⊢
      rw [views_under, query_under]
      cases hview : e.views.get? id with
      | none =>
          simp only [hview] at h ⊢
          exact ih changed output strict h
      | some view =>
          simp only [hview] at h ⊢
          split at h
          · cases h
          next told after hrun =>
            rw [refines_updateView policy strict changed id _ _ _ hrun]
            have hnext := fun changed output => ih changed output (e := e.setView id after) strict
            dsimp only
            split at h
            next hid =>
              rw [if_pos hid]
              exact hnext changed told h
            next hid =>
              rw [if_neg hid]
              split at h
              next hempty =>
                rw [if_pos hempty]
                exact hnext changed output h
              next hempty =>
                rw [if_neg hempty]
                exact hnext _ output h

/-! ## Requests -/

theorem load_under {contents : CollectionId → Rows} (h : load contents e = .ok () e') :
    load contents (e.under policy) = .ok () (e'.under policy) := by
  rw [load_eq] at h ⊢
  rw [feeds_under]
  split at h
  · cases h
  next feeds hload =>
    rw [refines_loadAll policy strict contents _ _ hload]
    exact startViews_under policy _ (e := e.setFeeds (OrdMap.ofList feeds)) strict h

theorem apply_under {collection : CollectionId} {batch changes : List Change}
    (h : apply collection batch e = .ok changes e') :
    apply collection batch (e.under policy) = .ok changes (e'.under policy) := by
  rw [apply_eq] at h ⊢
  rw [feeds_under]
  split at h
  · cases h
  next written hwrite =>
    rw [refines_writeFeeds policy strict collection batch _ _ hwrite]
    dsimp only
    split at h
    next hempty =>
      rw [if_pos hempty]
      cases h
      rfl
    next hempty =>
      rw [if_neg hempty]
      exact updateViews_under policy _ _ _ (e := e.setWritten written) strict h

theorem serve_under {request : Request} {changes : List Change}
    (h : serve request e = .ok changes e') :
    serve request (e.under policy) = .ok changes (e'.under policy) ∧ e'.policy = .strict := by
  cases request with
  | load contents =>
      obtain ⟨_, between, hload, hdone⟩ := bind_eq_ok.1 h
      cases hdone
      refine ⟨bind_eq_ok.2 ⟨(), _, load_under policy strict hload, rfl⟩, ?_⟩
      have hkept := (keepsSettings_load contents).of_ok hload
      exact (congrArg (fun settings => settings.2.2.2) hkept).trans strict
  | apply collection batch =>
      refine ⟨apply_under policy strict h, ?_⟩
      have hkept := (keepsSettings_apply collection batch).of_ok h
      exact (congrArg (fun settings => settings.2.2.2) hkept).trans strict

omit strict in
/-- Each answer of a strict engine is given under the other policy too. -/
theorem answers_under (requests : List Request) {e : Engine} (strict : e.policy = .strict) :
    e.answers requests <+: (e.under policy).answers requests := by
  induction requests generalizing e with
  | nil => exact List.prefix_rfl
  | cons request rest ih =>
      unfold answers
      cases hserve : serve request e with
      | error error after => exact List.nil_prefix
      | ok changes after =>
          obtain ⟨hsame, hstrict⟩ := serve_under policy strict hserve
          rw [hsame]
          exact List.cons_prefix_cons.2 ⟨rfl, ih hstrict⟩

end Feeds

theorem ofQuery_under {plan : Plan} {query : BodyId} {policy : FieldPolicy} {e : Engine}
    (h : ofQuery plan query policy = .ok e) (policy' : FieldPolicy) :
    ofQuery plan query policy' = .ok (e.under policy') ∧ e.policy = policy := by
  obtain ⟨graph, hgraph, hmade⟩ := Except.bind_eq_ok.1 h
  obtain rfl := Except.pure_eq_ok.1 hmade
  exact ⟨Except.bind_eq_ok.2 ⟨graph, hgraph, rfl⟩, rfl⟩

/-- What a strict evaluation gives, the default one gives; and the engine of a query answers
whatever its strict twin answers, until that one fails. -/
theorem strict_refines (plan : Plan) (query : BodyId) :
    (∀ contents rows, evaluate plan query .strict contents = .ok rows →
      evaluate plan query .undefined contents = .ok rows) ∧
    ∀ strict, ofQuery plan query .strict = .ok strict →
      ∃ lenient, ofQuery plan query .undefined = .ok lenient ∧
        ∀ requests, strict.answers requests <+: lenient.answers requests := by
  constructor
  · intro contents rows h
    unfold evaluate at h ⊢
    split at h
    · cases h
    next strict hmade =>
      obtain ⟨hlenient, hstrict⟩ := ofQuery_under hmade .undefined
      rw [hlenient]
      dsimp only
      split at h
      · cases h
      next after hload =>
        rw [load_under .undefined hstrict hload]
        exact h
  · intro strict hmade
    obtain ⟨hlenient, hstrict⟩ := ofQuery_under hmade .undefined
    exact ⟨_, hlenient, fun requests => answers_under .undefined requests hstrict⟩

/-- The query for a field that rows may lack, with a row that has it and then one that does not:
the strict engine answers two requests of three, and these as the default one does. -/
theorem strict_refines_missing_field :
    let plan := (queryOver ⟨0, "rows"⟩ fun rows =>
      Builder.selectValue (.ref ⟨rows.body, rows.path.get "x"⟩)).plan
    let contents : CollectionId → Rows := fun _ => .ofList [(⟨[.int 1]⟩, .cons "x" (.int 5) .nil)]
    let requests : List Request := [.load contents,
      .apply 0 [⟨.insert, ⟨[.int 2]⟩, .cons "x" (.int 6) .nil⟩],
      .apply 0 [⟨.insert, ⟨[.int 3]⟩, .nil⟩]]
    ∃ rows strict lenient, rows ≠ [] ∧ evaluate plan 0 .strict contents = .ok rows ∧
      evaluate plan 0 .undefined contents = .ok rows ∧
      ofQuery plan 0 .strict = .ok strict ∧ ofQuery plan 0 .undefined = .ok lenient ∧
      (strict.answers requests).length = 2 ∧ (lenient.answers requests).length = 3 ∧
      strict.answers requests <+: lenient.answers requests := by
  intro plan contents requests
  obtain ⟨rows, hevaluate, hrows⟩ := Except.exists_of_toOption
    (show (evaluate plan 0 .strict contents).toOption.map List.length = some 1 by decide +kernel)
  obtain ⟨strict, hstrict, htwo⟩ := Except.exists_of_toOption
    (show (ofQuery plan 0 .strict).toOption.map (fun e => (e.answers requests).length) = some 2 by
      decide +kernel)
  obtain ⟨lenient, hlenient, hthree⟩ := Except.exists_of_toOption
    (show (ofQuery plan 0 .undefined).toOption.map (fun e => (e.answers requests).length)
      = some 3 by decide +kernel)
  obtain ⟨lenient', hlenient', hprefix⟩ := (strict_refines plan 0).2 strict hstrict
  obtain rfl := Except.ok.inj (hlenient.symm.trans hlenient')
  exact ⟨rows, strict, lenient, List.ne_nil_of_length_pos (by omega), hevaluate,
    (strict_refines plan 0).1 contents rows hevaluate, hstrict, hlenient, htwo, hthree,
    hprefix requests⟩

end Engine

end LiveQuery
