import LiveQuery.Proofs.Strictness
import LiveQuery.View.Upkeep

/-!
# Strict upkeep

Upkeep fails with each evaluation that fails, so what it does to a view when it does not fail, it
does under the other policy too.

**Results.** `Blueprint.refines_rederive`, `Blueprint.refines_follow`.
-/

namespace LiveQuery

/-! ## Joins -/

namespace JoinPlan

variable {ev ev' : Evaluator} (h : ev.Refines ev') (body : BodyId) (outer : List Frame)

include h

theorem refines_matching (step : JoinStep) (t : PartialTuple) (entries : List (Key × Row)) :
    Except.Refines (matching ev body outer step t entries)
      (matching ev' body outer step t entries) := by
  induction entries with
  | nil => exact .refl _
  | cons entry rest ih => exact .bind (h.admits _ _) fun _ => .bind ih fun _ => .refl _

theorem refines_extendAll (step : JoinStep) (shared : Option Rows) (tuples : List PartialTuple) :
    Except.Refines (extendAll ev body outer step shared tuples)
      (extendAll ev' body outer step shared tuples) := by
  induction tuples with
  | nil => exact .refl _
  | cons t rest ih =>
      have hrest (rows : Rows) := Except.Refines.bind
        (refines_matching h body outer step t rows.entries) fun entries =>
          .bind ih fun others => .refl (pure (extended step t entries ++ others.1,
            entries.map Prod.fst ++ others.2))
      cases shared with
      | some rows => exact hrest rows
      | none => exact .bind (h.rows step.source _) hrest

theorem refines_runStep (step : JoinStep) (position : Nat) (shared : Option Rows)
    (tuples : List PartialTuple) :
    Except.Refines (runStep ev body outer step position shared tuples)
      (runStep ev' body outer step position shared tuples) :=
  .bind (refines_extendAll h body outer step shared tuples) fun _ => .refl _

theorem refines_sharedRows (fixed : Option (Nat × Rows)) (step : JoinStep) (position : Nat) :
    Except.Refines (sharedRows ev outer fixed step position)
      (sharedRows ev' outer fixed step position) := by
  have hrows := (h.rows step.source outer).map some
  unfold sharedRows
  cases fixed with
  | none =>
      simp only
      split
      · exact .refl _
      · exact hrows
  | some fixed =>
      simp only
      split
      · exact .refl _
      · split
        · exact .refl _
        · exact hrows

theorem refines_runSteps (fixed : Option (Nat × Rows)) (position : Nat)
    (tuples : List PartialTuple) (steps : List JoinStep) :
    Except.Refines (runSteps ev body outer fixed position tuples steps)
      (runSteps ev' body outer fixed position tuples steps) := by
  induction steps generalizing position tuples with
  | nil => exact .refl _
  | cons step rest ih =>
      exact .bind (refines_sharedRows h outer fixed step position) fun shared =>
        .bind (refines_runStep h body outer step position shared tuples) fun tuples => ih _ tuples

theorem refines_filtered (filter : Option Expr) (tuples : List PartialTuple) :
    Except.Refines (filtered ev body outer filter tuples)
      (filtered ev' body outer filter tuples) := by
  induction tuples with
  | nil => exact .refl _
  | cons t rest ih => exact .bind (h.admits _ _) fun _ => .bind ih fun _ => .refl _

theorem refines_enumerate (joins : JoinPlan) (fixed : Option (Nat × Rows)) :
    Except.Refines (joins.enumerate ev outer fixed) (joins.enumerate ev' outer fixed) :=
  .bind (refines_runSteps h joins.body outer fixed 0 _ joins.steps) fun tuples =>
    refines_filtered h joins.body outer joins.filter tuples

end JoinPlan

/-! ## Upkeep -/

/-- What the first operation does when it succeeds, the second one does too. -/
def Upkeep.Refines {α : Type} (x y : Upkeep α) : Prop :=
  ∀ view a after, x view = .ok a after → y view = .ok a after

namespace Upkeep.Refines

variable {α β : Type} {x y : Upkeep α}

theorem refl (x : Upkeep α) : Upkeep.Refines x x := fun _ _ _ h => h

theorem bind {f g : α → Upkeep β} (hxy : Upkeep.Refines x y)
    (hfg : ∀ a, Upkeep.Refines (f a) (g a)) : Upkeep.Refines (x >>= f) (y >>= g) := by
  intro view b after h
  obtain ⟨a, between, hx, hf⟩ := bind_eq_ok.1 h
  exact bind_eq_ok.2 ⟨a, between, hxy _ _ _ hx, hfg a _ _ _ hf⟩

/-- Two operations that read the same state first. -/
theorem get_bind {f g : View → Upkeep β} (hfg : ∀ view, Upkeep.Refines (f view) (g view)) :
    Upkeep.Refines (get >>= f) (get >>= g) :=
  .bind (.refl _) hfg

theorem ofExcept {x y : Except EvalError α} (h : Except.Refines x y) :
    Upkeep.Refines (Upkeep.ofExcept x) (Upkeep.ofExcept y) := by
  intro view a after hx
  obtain ⟨hx, hafter⟩ := Upkeep.ofExcept_eq_ok.1 hx
  exact Upkeep.ofExcept_eq_ok.2 ⟨h a hx, hafter⟩

end Upkeep.Refines

/-- Taking values out of aggregates does the same, as long as all values are there. -/
theorem takeOutAll_of_refines {ev ev' : Evaluator} (h : ev.Refines ev') (frames : List Frame)
    (group : Key) (exprs : List Expr) (states : List Accumulator)
    (hok : (takeOutAll ev frames group exprs states).2 = .ok ()) :
    takeOutAll ev' frames group exprs states = takeOutAll ev frames group exprs states := by
  induction exprs generalizing states with
  | nil => rfl
  | cons e rest ih =>
      cases states with
      | nil => rfl
      | cons state states =>
          have hvalue := h.aggregated frames e
          unfold takeOutAll at hok ⊢
          cases hrun : ev.aggregated frames e with
          | error error =>
              rw [hrun] at hok
              cases hok
          | ok value =>
              rw [hrun] at hok
              rw [hvalue value hrun]
              simp only at hok ⊢
              cases htake : state.takeOut? value with
              | none => rfl
              | some left =>
                  rw [htake] at hok
                  simp only at hok ⊢
                  rw [ih states hok]

namespace Blueprint

variable {ev ev' : Evaluator} (h : ev.Refines ev') (b : Blueprint) (outer : List Frame)

include h

theorem refines_groupKey (env : List Scalar) :
    Except.Refines (b.groupKey ev outer env) (b.groupKey ev' outer env) :=
  .bind (h.evalAll _ _) fun _ => .refl _

theorem refines_stagedRow (view : View) (key : Key) :
    Except.Refines (b.stagedRow ev outer view key) (b.stagedRow ev' outer view key) := by
  unfold stagedRow
  split
  · split
    · exact .refl _
    · refine .bind (h.admits _ _) fun admitted => ?_
      split
      · exact .bind (h.project _ _) fun _ => .refl _
      · exact .refl _
  · split
    · exact .refl _
    · exact .bind (h.project _ _) fun _ => .refl _

theorem refines_leaveGroup (groupKey key : Key) (env : List Scalar) :
    Upkeep.Refines (b.leaveGroup ev outer groupKey key env)
      (b.leaveGroup ev' outer groupKey key env) := by
  unfold leaveGroup
  refine .get_bind fun view => ?_
  cases view.groups.get? groupKey with
  | none => exact .refl _
  | some group =>
      intro before a after hleave
      have hok : (takeOutAll ev (b.frames outer env) groupKey b.aggregates group.states).2
          = .ok () := by
        obtain ⟨_, _, _, hrest⟩ := bind_eq_ok.1 hleave
        obtain ⟨_, _, houtcome, _⟩ := bind_eq_ok.1 hrest
        exact (Upkeep.ofExcept_eq_ok.1 houtcome).1
      simp only [takeOutAll_of_refines h _ _ _ _ hok]
      exact hleave

theorem refines_retract (key : Key) :
    Upkeep.Refines (b.retract ev outer key) (b.retract ev' outer key) := by
  unfold retract
  refine .get_bind fun view => ?_
  cases view.tuples.get? key with
  | none => exact .refl _
  | some bound =>
      refine .bind (.refl _) fun _ => ?_
      cases bound.group with
      | none => exact .refl _
      | some groupKey =>
          exact .bind (refines_leaveGroup h b outer groupKey key bound.env) fun _ => .refl _

theorem refines_enterGroup (t : Tuple) :
    Upkeep.Refines (b.enterGroup ev outer t) (b.enterGroup ev' outer t) :=
  .bind (.ofExcept (refines_groupKey h b outer t.env)) fun _ => .get_bind fun _ =>
    .bind (.refl _) fun _ => .bind (.ofExcept (h.aggregatedAll _ _)) fun _ => .refl _

theorem refines_insert (t : Tuple) :
    Upkeep.Refines (b.insert ev outer t) (b.insert ev' outer t) := by
  unfold insert
  refine .bind (.refl _) fun _ => ?_
  split
  · exact .bind (refines_enterGroup h b outer t) fun _ => .refl _
  · exact .refl _

theorem refines_retractAll (keys : List Key) :
    Upkeep.Refines (b.retractAll ev outer keys) (b.retractAll ev' outer keys) := by
  induction keys with
  | nil => exact .refl _
  | cons key rest ih =>
      exact .bind (refines_retract h b outer key) fun _ => .bind ih fun _ => .refl _

theorem refines_insertAll (tuples : List Tuple) :
    Upkeep.Refines (b.insertAll ev outer tuples) (b.insertAll ev' outer tuples) := by
  induction tuples with
  | nil => exact .refl _
  | cons t rest ih =>
      exact .bind (refines_insert h b outer t) fun _ => .bind ih fun _ => .refl _

theorem refines_replaceTuples (outdated : List Key) (added : List Tuple) :
    Upkeep.Refines (b.replaceTuples ev outer outdated added)
      (b.replaceTuples ev' outer outdated added) :=
  .bind (refines_retractAll h b outer outdated) fun _ =>
    .bind (refines_insertAll h b outer added) fun _ => .refl _

theorem refines_stageAll (keys : List Key) :
    Upkeep.Refines (b.stageAll ev outer keys) (b.stageAll ev' outer keys) := by
  induction keys with
  | nil => exact .refl _
  | cons key rest ih =>
      exact .get_bind fun view => .bind (.ofExcept (refines_stagedRow h b outer view key))
        fun _ => .bind (.refl _) fun _ => ih

theorem refines_refresh (touched : List Key) :
    Upkeep.Refines (b.refresh ev outer touched) (b.refresh ev' outer touched) :=
  .bind (refines_stageAll h b outer _) fun _ => .refl _

omit h in
/-- Derived anew, a view comes out the same if its parts do. -/
theorem refines_rederive_of
    (henumerate : Except.Refines (b.joins.enumerate ev outer none)
      (b.joins.enumerate ev' outer none))
    (hreplace : ∀ outdated added, Upkeep.Refines (b.replaceTuples ev outer outdated added)
      (b.replaceTuples ev' outer outdated added))
    (hrefresh : ∀ keys, Upkeep.Refines (b.refresh ev outer keys) (b.refresh ev' outer keys)) :
    Upkeep.Refines (b.rederive ev outer) (b.rederive ev' outer) := by
  unfold rederive
  refine .get_bind fun before => ?_
  have hderived (known : List Key) := Upkeep.Refines.bind (.ofExcept henumerate) fun tuples =>
    .get_bind fun view => .bind
      (hreplace (outdated view (byKey tuples) view.tuples.keys) (newTuples view (byKey tuples)))
        fun touched => .get_bind fun after =>
          hrefresh (known ++ touched ++ if after.staged.isEmpty then after.groups.keys else [])
  split
  · exact .bind (.refl _) fun _ => hderived _
  · exact hderived _

theorem refines_rederive : Upkeep.Refines (b.rederive ev outer) (b.rederive ev' outer) :=
  b.refines_rederive_of outer (JoinPlan.refines_enumerate h outer b.joins none)
    (refines_replaceTuples h b outer) (refines_refresh h b outer)

theorem refines_deriveChanged (position : Nat) (keys : List Key) :
    Except.Refines (b.deriveChanged ev position keys) (b.deriveChanged ev' position keys) := by
  unfold deriveChanged
  cases b.joins.steps[position]? with
  | none => exact .refl _
  | some step =>
      exact .bind (h.rows step.source []) fun _ => JoinPlan.refines_enumerate h [] b.joins _

theorem refines_deriveAllChanged (changed : List (Nat × List Key)) :
    Except.Refines (b.deriveAllChanged ev changed) (b.deriveAllChanged ev' changed) := by
  induction changed with
  | nil => exact .refl _
  | cons entry rest ih =>
      exact .bind (refines_deriveChanged h b entry.1 entry.2) fun _ => .bind ih fun _ => .refl _

theorem refines_follow (changed : List (Nat × List Key)) :
    Upkeep.Refines (b.follow ev changed) (b.follow ev' changed) :=
  .bind (.ofExcept (refines_deriveAllChanged h b _)) fun _ => .get_bind fun _ =>
    .bind (refines_replaceTuples h b [] _ _) fun _ => refines_refresh h b [] _

end Blueprint

end LiveQuery
