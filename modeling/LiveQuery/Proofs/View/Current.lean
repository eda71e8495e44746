import LiveQuery.Proofs.View.Staging
import LiveQuery.Proofs.View.Window

/-!
# Upkeep of views that are up to date

A view that was derived from nothing has the tuples that are derived from its inputs, each with its
output row, and shows what the window leaves of these. When it is brought up to date over the same
inputs, whatever is made again is as it was: it stays as it is, and no changes are told. This is so
when all its tuples are derived again, of which a nested body makes use to start from an empty view,
and also when it follows changes that did not happen.

**Results.** `View.Current.rederive` and `View.Current.follow`.
-/

namespace LiveQuery

/-- Nothing is told where nothing differs. -/
theorem Change.Exact.eq_nil {rows : Rows} {changes : List Change}
    (h : Change.Exact rows rows changes) : changes = [] := by
  refine List.eq_nil_iff_forall_not_mem.2 fun c hc => ?_
  cases hkind : c.kind with
  | insert =>
      obtain ⟨hbefore, hafter⟩ := h.insertion c hc hkind
      cases hbefore.symm.trans hafter
  | update =>
      obtain ⟨row, hbefore, hne, hafter⟩ := h.update c hc hkind
      exact hne (Option.some.inj (hbefore.symm.trans hafter))
  | delete =>
      obtain ⟨hbefore, hafter⟩ := h.deletion c hc hkind
      cases hbefore.symm.trans hafter

namespace Blueprint

variable {b : Blueprint} {ev : Evaluator} {outer : List Frame} {view mid after : View}
  {changes : List Change} {touched : List Key}

/-! ## Making rows again -/

/-- Rows that are made again are all that changes of a view. -/
theorem withRows_refresh (run : b.refresh ev outer touched view = .ok changes after) :
    after = view.withRows after ∧
      ∀ key ∉ touched, after.staged.get? key = view.staged.get? key := by
  have hstages {keys : List Key} {view mid : View}
      (hstage : b.stageAll ev outer keys view = .ok () mid) : mid = view.withRows mid := by
    induction keys generalizing view with
    | nil =>
        cases hstage
        rfl
    | cons key rest ih =>
        obtain ⟨_, _, hget, hstage⟩ := bind_eq_ok.1 hstage
        cases hget
        obtain ⟨staged, _, hmade, hstage⟩ := bind_eq_ok.1 hstage
        obtain ⟨-, hsame⟩ := Upkeep.ofExcept_eq_ok.1 hmade
        rw [hsame] at hstage
        obtain ⟨_, _, hset, hstage⟩ := bind_eq_ok.1 hstage
        cases hset
        have hrest := ih hstage
        exact hrest
  obtain ⟨⟨⟩, mid, hstage, run⟩ := bind_eq_ok.1 run
  obtain ⟨_, hpublish, -⟩ := b.publish_exact (OrdSet.ofList touched).keys mid
  rw [hpublish] at run
  cases run
  refine ⟨?_, fun key hkey => staged_stageAll hstage key (mt OrdSet.mem_keys_ofList.1 hkey)⟩
  rw [hstages hstage]
  rfl

/-- Where each row is as it is made, making rows again puts those in that are missing. -/
theorem stageAll_of_exact (made : view.Exact b ev outer) {keys : List Key}
    {staged : OrdMap Key StagedRow}
    (hothers : ∀ key ∉ keys, staged.get? key = view.staged.get? key) :
    b.stageAll ev outer keys { view with staged } = .ok () view := by
  induction keys generalizing staged with
  | nil =>
      have hsame : staged = view.staged :=
        OrdMap.ext_get? fun key => hothers key List.not_mem_nil
      rw [hsame]
      rfl
  | cons key rest ih =>
      have hcore : b.stagedRow ev outer { view with staged } = b.stagedRow ev outer view :=
        stagedRow_of_core rfl rfl
      have hmade : b.stagedRow ev outer { view with staged } key = .ok (view.staged.get? key) := by
        rw [hcore]
        exact made key
      refine bind_eq_ok.2 ⟨_, _, rfl, bind_eq_ok.2 ⟨_, _, Upkeep.ofExcept_eq_ok.2 ⟨hmade, rfl⟩,
        bind_eq_ok.2 ⟨_, _, rfl, ih fun k hk => ?_⟩⟩⟩
      rw [OrdMap.get?_set]
      split
      next heq => rw [heq]
      next hne => exact hothers k fun hmem => (List.mem_cons.1 hmem).elim hne hk

/-- What is visible already is published without changes. -/
theorem publish_of_shows (shows : view.Shows b) (touched : List Key) :
    b.publish touched view = .ok [] view := by
  obtain ⟨changes, hpublish, hexact⟩ := b.publish_exact touched view
  have hsame : b.published touched view = (view.visible, view.order) := by
    unfold published
    split
    next hwindowed => exact Prod.ext shows.visible.symm (shows.order hwindowed).symm
    next hplain =>
      have hrow := shows.get?_of_plain (eq_false_of_ne_true hplain)
      refine Prod.ext (OrdMap.ext_get? fun key => ?_) rfl
      rw [get?_foldl_set, hrow, ite_self]
  rw [hsame] at hpublish hexact
  rw [hexact.eq_nil] at hpublish
  exact hpublish

/-- Where each row is as it is made, and is shown, making rows again tells nothing. -/
theorem refresh_of_exact (made : view.Exact b ev outer) (shows : view.Shows b)
    {staged : OrdMap Key StagedRow}
    (hothers : ∀ key ∉ touched, staged.get? key = view.staged.get? key) :
    b.refresh ev outer touched { view with staged } = .ok [] view :=
  bind_eq_ok.2 ⟨(), view, stageAll_of_exact made fun key hkey =>
    hothers key (mt OrdSet.mem_keys_ofList.2 hkey), publish_of_shows shows _⟩

end Blueprint

/-! ## Deriving from nothing -/

/-- The view as it comes out when its tuples are derived from nothing. -/
def View.Current (b : Blueprint) (ev : Evaluator) (outer : List Frame) (view : View) : Prop :=
  ∃ changes, b.rederive ev outer b.emptyView = .ok changes view

open Blueprint JoinPlan

namespace View.Current

variable {b : Blueprint} {ev : Evaluator} {outer : List Frame} {view : View}

/-- How a view is derived from nothing: all tuples are added, and then all rows are made. -/
theorem steps (h : view.Current b ev outer) : ∃ ts touched mid changes,
    b.joins.enumerate ev outer none = .ok ts ∧
    b.replaceTuples ev outer [] (newTuples b.emptyView (byKey ts)) b.emptyView = .ok touched mid ∧
    b.refresh ev outer (touched ++ mid.groups.keys) mid = .ok changes view := by
  obtain ⟨changes, run⟩ := h
  have hstart : b.startFrom b.emptyView = b.emptyView := by
    unfold startFrom
    split <;> rfl
  rw [rederive_eq, hstart] at run
  obtain ⟨ts, _, hts, run⟩ := bind_eq_ok.1 run
  obtain ⟨hts, hsame⟩ := Upkeep.ofExcept_eq_ok.1 hts
  rw [hsame] at run
  obtain ⟨_, _, hget, run⟩ := bind_eq_ok.1 run
  cases hget
  obtain ⟨touched, mid, hreplace, run⟩ := bind_eq_ok.1 run
  obtain ⟨_, _, hget, run⟩ := bind_eq_ok.1 run
  cases hget
  have hstaged : mid.staged = OrdMap.empty := (rows_replaceTuples hreplace).1
  have hknown : (if b.nested = true then b.emptyView.visible.keys else []) = [] := ite_self _
  have hgroups : (if mid.staged.isEmpty = true then mid.groups.keys else []) = mid.groups.keys := by
    rw [hstaged]
    rfl
  rw [hknown, hgroups] at run
  exact ⟨ts, touched, mid, changes, hts, hreplace, run⟩

theorem exact (h : view.Current b ev outer) : view.Exact b ev outer := by
  obtain ⟨changes, run⟩ := h
  have hends := ends_rederive (fun _ => .emptyView b ev outer) (.of_any b ev outer)
  rw [run] at hends
  exact hends.of_ok.2.2 fun _ => .inr ⟨fun _ => rfl, fun _ => rfl⟩

theorem shows (h : view.Current b ev outer) : view.Shows b := by
  obtain ⟨changes, run⟩ := h
  exact shows_rederive (fun _ _ => .emptyView b) run

theorem reached (h : view.Current b ev outer) : b.Reached view := by
  obtain ⟨changes, run⟩ := h
  have hafter := Blueprint.Reached.empty.rederive (b := b) ev outer
  rwa [run] at hafter

/-- The view has the tuples that are derived. -/
theorem env?_eq (h : view.Current b ev outer) {ts : List Tuple}
    (hts : b.joins.enumerate ev outer none = .ok ts) (key : Key) :
    view.env? key = (byKey ts).get? key := by
  obtain ⟨ts', touched, mid, changes, hts', hreplace, hrefresh⟩ := h.steps
  cases hts.symm.trans hts'
  have hstart : b.replaceTuples ev outer (outdated b.emptyView (byKey ts) [])
      (newTuples b.emptyView (byKey ts)) b.emptyView = .ok touched mid := hreplace
  have hmid := env?_replaceTuples hstart key
  have hnone : b.emptyView.env? key = none := rfl
  rw [if_neg List.not_mem_nil, hnone, Option.or_none] at hmid
  rw [← hmid, (withRows_refresh hrefresh).1]
  rfl

/-- When all tuples are derived again, nothing comes of it. -/
theorem rederive (h : view.Current b ev outer) : b.rederive ev outer view = .ok [] view := by
  obtain ⟨ts, touched, mid, changes, hts, hreplace, hrefresh⟩ := h.steps
  obtain ⟨hview, hothers⟩ := withRows_refresh hrefresh
  rw [rederive_eq]
  refine bind_eq_ok.2 ⟨ts, _, Upkeep.ofExcept_eq_ok.2 ⟨hts, rfl⟩, bind_eq_ok.2 ⟨_, _, rfl, ?_⟩⟩
  unfold startFrom
  split
  next hnested =>
    -- all tuples are added again to a view that shows what it did
    let start : View := { b.emptyView with visible := view.visible, order := view.order }
    have hagain : b.replaceTuples ev outer (outdated start (byKey ts) start.tuples.keys)
        (newTuples start (byKey ts)) start = .ok touched (mid.withRows start) := by
      have hignores := b.ignoresRows_replaceTuples ev outer [] (newTuples b.emptyView (byKey ts))
        b.emptyView start
      rwa [hreplace] at hignores
    refine bind_eq_ok.2 ⟨touched, mid.withRows start, hagain, bind_eq_ok.2 ⟨_, _, rfl, ?_⟩⟩
    have hmid : mid.withRows start = { view with staged := OrdMap.empty } := by
      rw [hview]
      rfl
    have hstaged : mid.staged = OrdMap.empty := (rows_replaceTuples hreplace).1
    rw [hmid]
    refine refresh_of_exact h.exact h.shows fun key hkey => ?_
    have hgroups : view.groups = mid.groups := by
      rw [hview]
      rfl
    simp only [List.mem_append, not_or] at hkey
    obtain ⟨⟨-, htouched⟩, hgroup⟩ := hkey
    have hkey : key ∉ touched ++ mid.groups.keys := by
      rw [List.mem_append, not_or]
      exact ⟨htouched, hgroups ▸ hgroup⟩
    rw [hothers key hkey, hstaged]
  next hflat =>
    have hsame := h.env?_eq hts
    have hnone : outdated view (byKey ts) view.tuples.keys = [] :=
      List.eq_nil_iff_forall_not_mem.2 fun key hkey => (mem_outdated.1 hkey).2 (hsame key).symm
    have hnew : newTuples view (byKey ts) = [] :=
      List.eq_nil_iff_forall_not_mem.2 fun t ht => by
        obtain ⟨hderived, hne⟩ := mem_newTuples.1 ht
        exact hne ((hsame t.key).trans hderived)
    rw [hnone, hnew]
    exact bind_eq_ok.2 ⟨[], view, rfl, bind_eq_ok.2 ⟨_, _, rfl,
      refresh_of_exact h.exact h.shows fun _ _ => rfl⟩⟩

/-! ## Following changes that did not happen -/

variable {ts : List Tuple} {changed : List (Nat × List Key)}

/-- Where all tuples are derived by inner joins, each source could be read. -/
theorem readable (h : view.Current b ev []) (inner : ∀ step ∈ b.joins.steps, step.Inner) :
    b.joins.Readable ev := by
  have hreads {position : Nat} {steps : List JoinStep} {sources : List Rows}
      (supplied : Supplied ev [] none position steps sources)
      (hinner : ∀ step ∈ steps, step.Inner) : ∀ step ∈ steps,
        ev.inputs.rows step.source [] = .ok (rowsRead ev step) := by
    induction supplied with
    | done => exact fun _ hstep => absurd hstep List.not_mem_nil
    | @step position step steps rows sources first _ ih =>
        obtain ⟨hstep, hrest⟩ := List.forall_mem_cons.1 hinner
        refine List.forall_mem_cons.2 ⟨?_, ih hrest⟩
        rw [sharedRows, hstep.shared, if_neg Bool.false_ne_true] at first
        cases hrows : ev.inputs.rows step.source [] with
        | error error =>
            rw [hrows] at first
            cases first
        | ok rows => rw [rowsRead_eq hrows]
  obtain ⟨ts, -, -, -, hts, -, -⟩ := h.steps
  obtain ⟨joined, hjoined, -⟩ := Except.bind_eq_ok.1 hts
  obtain ⟨sources, hsources⟩ := exists_supplied (fun step hstep => (inner step hstep).shared) hjoined
  exact ⟨inner, hreads hsources inner⟩

/-- The tuples with a row of some keys can be derived where all tuples can. -/
theorem exists_deriveAllChanged (readable : b.joins.Readable ev)
    (hts : b.joins.enumerate ev [] none = .ok ts) (changed : List (Nat × List Key)) :
    ∃ derived, b.deriveAllChanged ev changed = .ok derived := by
  induction changed with
  | nil => exact ⟨[], rfl⟩
  | cons entry rest ih =>
      obtain ⟨others, hothers⟩ := ih
      obtain ⟨first, hfirst⟩ : ∃ first, b.deriveChanged ev entry.1 entry.2 = .ok first := by
        cases hp : b.joins.steps[entry.1]? with
        | none => exact ⟨[], by rw [deriveChanged, hp]; rfl⟩
        | some step =>
            rw [deriveChanged_eq readable hp]
            refine (exists_enumerate_iff readable.inner (readable.supplied entry.1 _)).2
              fun entries hpicks => ?_
            exact readable.exists_enumerate.1 ⟨ts, hts⟩ entries
              ((picks_fixedRows hp fun entry => mem_rowsOf).1 hpicks).1
      exact ⟨first ++ others, Except.bind_eq_ok.2 ⟨first, hfirst,
        Except.bind_eq_ok.2 ⟨others, hothers, rfl⟩⟩⟩

/-- When changes are followed and the rows are as they were, nothing comes of it. -/
theorem follow (h : view.Current b ev []) (same : b.Changes ev ev changed) :
    b.follow ev changed view = .ok [] view := by
  obtain ⟨ts, -, -, -, hts, -, -⟩ := h.steps
  obtain ⟨derived, hderive⟩ := exists_deriveAllChanged same.new hts
    (changed.filter fun entry => !entry.2.isEmpty)
  have hderived {key : Key} {env : List Scalar} (hkey : (byKey derived).get? key = some env) :
      view.env? key = some env := by
    obtain ⟨entries, hmakes, -, htuple⟩ := (same.mem_derived hderive).1 (mem_of_byKey hkey)
    obtain ⟨env', hfound⟩ := exists_byKey ((same.new.mem_all hts).2 ⟨entries, hmakes, htuple⟩)
    obtain ⟨entries', hmakes', htuple'⟩ := (same.new.mem_all hts).1 (mem_of_byKey hfound)
    have hkeys : (tupleOf entries).key = (tupleOf entries').key :=
      (congrArg Tuple.key htuple).symm.trans
        (show key = (tupleOf entries').key from congrArg Tuple.key htuple')
    obtain rfl := same.eq_of_key hmakes hmakes' hkeys
    rw [h.env?_eq hts, hfound]
    exact congrArg some (congrArg Tuple.env (htuple'.trans htuple.symm))
  have hnone : outdated view (byKey derived) (OrdSet.ofList
      ((changed.filter fun entry => !entry.2.isEmpty).flatMap
        fun entry => staleTuples view entry.1 entry.2)).keys = [] := by
    refine List.eq_nil_iff_forall_not_mem.2 fun key hkey => ?_
    obtain ⟨hstale, hne⟩ := mem_outdated.1 hkey
    cases hfound : (byKey derived).get? key with
    | some env => exact hne (hfound.trans (hderived hfound).symm)
    | none =>
        -- a tuple that binds a listed key is among those that are derived
        cases henv : view.env? key with
        | none => exact hne (hfound.trans henv.symm)
        | some env =>
            have hmem := mem_of_byKey ((h.env?_eq hts key).symm.trans henv)
            obtain ⟨entries, hmakes, htuple⟩ := (same.new.mem_all hts).1 hmem
            obtain ⟨position, k, hk, hlists⟩ := mem_staleKeys.1 hstale
            have hbinds : (tupleOf entries).key.Binds changed := by
              rw [← htuple]
              exact binds_of_stale h.reached.indexed hk hlists
            have htouched := same.touched_of_binds hmakes hbinds
            obtain ⟨_, hsome⟩ :=
              exists_byKey ((same.mem_derived hderive).2 ⟨entries, hmakes, htouched, htuple⟩)
            cases hfound.symm.trans hsome
  have hnew : newTuples view (byKey derived) = [] :=
    List.eq_nil_iff_forall_not_mem.2 fun t ht => by
      obtain ⟨hkey, hne⟩ := mem_newTuples.1 ht
      exact hne (hderived hkey)
  unfold Blueprint.follow
  refine bind_eq_ok.2 ⟨derived, _, Upkeep.ofExcept_eq_ok.2 ⟨hderive, rfl⟩,
    bind_eq_ok.2 ⟨_, _, rfl, ?_⟩⟩
  rw [hnone, hnew]
  exact bind_eq_ok.2 ⟨[], view, rfl, refresh_of_exact h.exact h.shows fun _ _ => rfl⟩

end View.Current

end LiveQuery
