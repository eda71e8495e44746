import LiveQuery.Proofs.Engine.Nesting
import LiveQuery.Proofs.View.Keys

/-!
# Which tuples get the same key

The rows of a query have keys that stay apart as parts of other keys, and so have the rows of a
collection, if its keys do not mix records with keys of several parts. Then two tuples of a join get
the same key in one case only: in a full join, where a row with the key null joins nothing and
neither does a combination of rows that all have this key.

**Results.** `Engine.tuples_keyed`, and `Engine.tuples_collide`: what is lost where keys are equal.
-/

namespace LiveQuery

/-- A map has an entry for each of the listed ones if their keys differ. -/
theorem OrdMap.length_ofList_iff {κ ν : Type} [Ord κ] [DecidableEq κ] [Std.TransOrd κ]
    [Std.LawfulEqOrd κ] {entries : List (κ × ν)} :
    (OrdMap.ofList entries).entries.length = entries.length ↔ (entries.map Prod.fst).Nodup := by
  have hlength (m : OrdMap κ ν) : m.keys.length = m.entries.length := List.length_map _
  constructor
  · intro h
    have hsubset : (OrdMap.ofList entries).keys ⊆ entries.map Prod.fst := by
      intro key hkey
      obtain ⟨value, hvalue⟩ := OrdMap.mem_keys.1 hkey
      exact List.mem_map_of_mem (OrdMap.mem_of_get?_ofList hvalue)
    have hcount : (entries.map Prod.fst).length = (OrdMap.ofList entries).keys.length := by
      rw [hlength, h, List.length_map]
    have hperm := ((OrdMap.nodup_keys _).subperm hsubset).perm_of_length_le (Nat.le_of_eq hcount)
    exact hperm.nodup_iff.1 (OrdMap.nodup_keys _)
  · intro h
    rw [← hlength, (OrdMap.keys_ofList_perm h).length_eq, List.length_map]

/-- The tuples by their keys are all of them if their keys differ. -/
theorem Blueprint.length_byKey_iff {ts : List Tuple} :
    (byKey ts).entries.length = ts.length ↔ (ts.map Tuple.key).Nodup := by
  have hentries := @OrdMap.length_ofList_iff Key (List Scalar) _ _ _ _
    (ts.map fun t => (t.key, t.env))
  rwa [List.length_map, List.map_map] at hentries

namespace Engine

/-! ## The views of engines -/

/-- The views of an engine are what upkeep makes of empty ones. -/
def Kept (e : Engine) : Prop :=
  ∀ id view, e.views.get? id = some view → (e.blueprint id).Reached view

variable {e : Engine}

theorem Kept.setView (h : e.Kept) {id : BodyId} {view : View}
    (hview : (e.blueprint id).Reached view) : (e.setView id view).Kept := by
  intro id' view' hget
  change (e.views.insert id view).get? id' = some view' at hget
  rw [OrdMap.get?_insert_eq] at hget
  split at hget
  next hid =>
    cases hget
    exact hid ▸ hview
  · exact h id' view' hget

theorem reached_rederive {b : Blueprint} {view : View} (h : b.Reached view) (ev : Evaluator)
    (outer : List Frame) {changes : List Change} {after : View}
    (hrun : b.rederive ev outer view = .ok changes after) : b.Reached after := by
  have hafter := h.rederive ev outer
  rwa [hrun] at hafter

theorem reached_updateView (changed : Changed) {id : BodyId} {view : View}
    (h : (e.blueprint id).Reached view) :
    (e.blueprint id).Reached (stateAfter (e.updateView changed id view)) := by
  unfold updateView
  dsimp only
  split
  · split
    · exact h
    · exact h.follow _ _
  · exact h.rederive _ []

theorem lasting_kept : Lasting Kept where
  fed _ _ h := h
  started _ _ _ _ h hrun := h.setView (reached_rederive .empty _ _ hrun)
  updated _ changed id view h hview := h.setView (reached_updateView changed (h id view hview))

variable {plan : Plan} {query : BodyId} {policy : FieldPolicy}

theorem kept_ofQuery (h : ofQuery plan query policy = .ok e) : e.Kept := by
  obtain ⟨graph, _, hmade⟩ := Except.bind_eq_ok.1 h
  obtain rfl := Except.pure_eq_ok.1 hmade
  intro id view hget
  obtain ⟨_, _, hentry⟩ := List.mem_map.1 (OrdMap.mem_of_get?_ofList hget)
  obtain ⟨rfl, rfl⟩ := Prod.mk.inj hentry
  exact .empty

theorem Reached.kept (h : Reached plan query policy e) : e.Kept :=
  h.of_lasting lasting_kept fun _ => kept_ofQuery

/-! ## The rows of sources -/

/-- A body that is evaluated within others has such a view as well. -/
theorem reached_viewWithin {inputs : Inputs} {id : BodyId} {outer : List Frame} {view : View}
    (h : e.viewWithin inputs id outer = .ok view) : (e.blueprint id).Reached view := by
  unfold viewWithin at h
  dsimp only at h
  split at h
  next hrun =>
    cases h
    exact reached_rederive .empty _ _ hrun
  · cases h

/-- Where the keys of feeds stay apart as parts of other keys, so do those of all sources, at any
depth and in any frames. -/
theorem Kept.apart_of_rows (h : e.Kept) (apart : ∀ feed ∈ e.feeds.values, feed.rows.Apart)
    {depth : Nat} {source : Source} {outer : List Frame} {rows : Rows}
    (hrows : (e.inputsWithin depth).rows source outer = .ok rows) : rows.Apart := by
  cases depth with
  | zero => cases hrows
  | succ depth =>
      cases horigin : source.origin with
      | collection ref =>
          simp only [inputsWithin, horigin] at hrows
          cases hrows
          cases hfeed : e.feeds.get? source.id with
          | none => exact fun k hk => absurd hk List.not_mem_nil
          | some feed => exact apart feed (OrdMap.mem_values.2 ⟨source.id, hfeed⟩)
      | query id =>
          cases hview : e.views.get? id with
          | some view =>
              simp only [inputsWithin, horigin, hview] at hrows
              cases hrows
              exact (h id view hview).uniform.apart
          | none =>
              cases outer with
              | nil =>
                  simp only [inputsWithin, horigin, hview] at hrows
                  cases hrows
              | cons frame outer =>
                  simp only [inputsWithin, horigin, hview] at hrows
                  cases hmade : e.viewWithin (e.inputsWithin depth) id (frame :: outer) with
                  | error error =>
                      rw [hmade] at hrows
                      cases hrows
                  | ok view =>
                      rw [hmade] at hrows
                      cases hrows
                      exact (reached_viewWithin hmade).uniform.apart

/-! ## Tuples with equal keys -/

/-- Where the keys of all feeds stay apart as parts of other keys, a body has its tuples from
different combinations of rows of its sources, at any depth and in any frames, and two of them have
the same key just if they meet. So the tuples by their keys are all of them, unless two meet. -/
theorem tuples_keyed (reached : Reached plan query policy e)
    (apart : ∀ feed ∈ e.feeds.values, feed.rows.Apart) (id : BodyId) (depth : Nat)
    (outer : List Frame) (fixed : Option (Nat × Rows))
    (fixedApart : ∀ position rows, fixed = some (position, rows) → rows.Apart) {ts : List Tuple}
    (made : (plan.joinPlan id).enumerate { plan, policy, inputs := e.inputsWithin depth } outer fixed
      = .ok ts) :
    ∃ cs : List Combination, cs.Nodup ∧ ts = cs.map Combination.tuple ∧
      (∀ b ∈ cs, b.length = (plan.body id).sources.length ∧
        ∀ i entry, b[i]? = some (some entry) → ∃ rows,
          JoinPlan.Reads { plan, policy, inputs := e.inputsWithin depth } fixed
            (plan.joinPlan id).steps i rows ∧ entry ∈ rows.entries) ∧
      (∀ c ∈ cs, ∀ c' ∈ cs, c.tuple.key = c'.tuple.key ↔ c = c' ∨
        Combination.Meet (plan.joinPlan id).steps c c' ∨
          Combination.Meet (plan.joinPlan id).steps c' c) ∧
      ((Blueprint.byKey ts).entries.length = ts.length ↔
        ∀ c ∈ cs, ∀ c' ∈ cs, ¬Combination.Meet (plan.joinPlan id).steps c c') := by
  have hreads : ∀ i rows, JoinPlan.Reads { plan, policy, inputs := e.inputsWithin depth } fixed
      (plan.joinPlan id).steps i rows → rows.Apart := by
    rintro i rows (hgiven | ⟨step, frames, -, hrows⟩)
    · exact fixedApart i rows hgiven
    · exact reached.kept.apart_of_rows apart hrows
  obtain ⟨cs, rfl, hcs⟩ := JoinPlan.enumerate_distinct hreads made
  have hkeys : ∀ c ∈ cs, ∀ c' ∈ cs, c.tuple.key = c'.tuple.key ↔ c = c' ∨
      Combination.Meet (plan.joinPlan id).steps c c' ∨
        Combination.Meet (plan.joinPlan id).steps c' c := by
    intro c hc c' hc'
    constructor
    · exact fun h => hcs.meets c hc c' hc' (congrArg Key.parts h)
    · rintro (rfl | h | h)
      · rfl
      · exact congrArg Key.mk h.parts_eq
      · exact congrArg Key.mk h.parts_eq.symm
  refine ⟨cs, hcs.nodup, rfl, fun c hc => ⟨?_, hcs.drawn c hc⟩, hkeys, ?_⟩
  · rw [hcs.length c hc]
    exact List.length_map _
  · rw [Blueprint.length_byKey_iff, List.map_map]
    constructor
    · intro hnodup c hc c' hc' hmeet
      have heq := List.inj_on_of_nodup_map hnodup hc hc' ((hkeys c hc c' hc').2 (.inr (.inl hmeet)))
      exact hmeet.ne heq
    · intro hnone
      refine List.Nodup.map_on (fun c hc c' hc' hkey => ?_) hcs.nodup
      rcases (hkeys c hc c' hc').1 hkey with heq | hmeet | hmeet
      · exact heq
      · exact absurd hmeet (hnone c hc c' hc')
      · exact absurd hmeet (hnone c' hc' c hc)

/-- The rows of one collection and those of another, none of which joins another one. -/
def unrelated : Plan :=
  ((do
    let a ← Builder.bind "a" (.collection ⟨0, "a"⟩) none
    let b ← Builder.bind "b" (.collection ⟨1, "b"⟩) (some .full)
    Builder.on b (.value (.bool false))
    Builder.selectValue (.ref a) : Builder Unit).run (Plan.openQuery {})).2.plan

/-- Rows without fields, by their keys. -/
def rowsAt (keys : List Key) : Rows :=
  OrdMap.ofList (keys.map (·, .nil))

/-- The keys of the tuples of a query, and the keys of the rows in its feeds. -/
def keysOf (plan : Plan) (e : Engine) : Option (List Key) × List (List Key) :=
  let ev : Evaluator := { plan, policy := .strict, inputs := e.inputsWithin 1 }
  (((plan.joinPlan 0).enumerate ev [] none).toOption.map (List.map Tuple.key),
    e.feeds.values.map fun feed => feed.rows.keys)

/-- Keys with one part each stay apart. -/
theorem apart_of_keysOf {keys : Option (List Key)} {fed : List (List Key)}
    (h : keysOf plan e = (keys, fed)) (hone : ∀ keys ∈ fed, ∀ key ∈ keys, key.parts.length = 1) :
    ∀ feed ∈ e.feeds.values, feed.rows.Apart := by
  obtain ⟨-, rfl⟩ := Prod.mk.inj h
  exact fun feed hfeed => Rows.apart_of_length (hone _ (List.mem_map_of_mem hfeed))

/-- Each row of two collections is in a tuple of its own. -/
theorem tuples_keyed_unrelated :
    ∃ e, Reached unrelated 0 .strict e ∧ (∀ feed ∈ e.feeds.values, feed.rows.Apart) ∧
      ∃ ts, (unrelated.joinPlan 0).enumerate
          { plan := unrelated, policy := .strict, inputs := e.inputsWithin 1 } [] none = .ok ts ∧
        ts.map Tuple.key = [⟨[.int 1, .null]⟩, ⟨[.null, .int 1]⟩] ∧
        ∃ cs : List Combination, cs.Nodup ∧ ts = cs.map Combination.tuple ∧
          ∀ c ∈ cs, ∀ c' ∈ cs, ¬Combination.Meet (unrelated.joinPlan 0).steps c c' := by
  obtain ⟨e, hreached, hfacts⟩ : ∃ e, Reached unrelated 0 .strict e ∧ keysOf unrelated e
      = (some [⟨[.int 1, .null]⟩, ⟨[.null, .int 1]⟩], [[.ofScalar (.int 1)], [.ofScalar (.int 1)]]) :=
    exists_loaded (fun _ => rowsAt [.ofScalar (.int 1)]) (by decide +kernel)
  obtain ⟨ts, hts, hkeys⟩ := Except.exists_of_toOption (Prod.mk.inj hfacts).1
  have hapart := apart_of_keysOf hfacts (by decide +kernel)
  obtain ⟨cs, hnodup, htuples, -, -, hlength⟩ :=
    tuples_keyed hreached hapart 0 1 [] none (fun _ _ h => by cases h) hts
  refine ⟨e, hreached, hapart, ts, hts, hkeys, cs, hnodup, htuples, hlength.1 ?_⟩
  rw [Blueprint.length_byKey_iff, hkeys]
  decide +kernel

/-- Two tuples get one key, and only one of them is kept: where a full join keeps two rows with the
key null, and where a key of two parts becomes the same record as the key of another row. -/
theorem tuples_collide :
    (∃ e, Reached unrelated 0 .strict e ∧ (∀ feed ∈ e.feeds.values, feed.rows.Apart) ∧
      ∃ ts, (unrelated.joinPlan 0).enumerate
          { plan := unrelated, policy := .strict, inputs := e.inputsWithin 1 } [] none = .ok ts ∧
        ts.map Tuple.key = [⟨[.null, .null]⟩, ⟨[.null, .null]⟩] ∧
        (Blueprint.byKey ts).entries.length ≠ ts.length) ∧
    ∃ e, Reached allRows 0 .strict e ∧
      ∃ ts, (allRows.joinPlan 0).enumerate
          { plan := allRows, policy := .strict, inputs := e.inputsWithin 1 } [] none = .ok ts ∧
        ts.map Tuple.key = [recordKey, recordKey] ∧
        (Blueprint.byKey ts).entries.length ≠ ts.length := by
  constructor
  · obtain ⟨e, hreached, hfacts⟩ : ∃ e, Reached unrelated 0 .strict e ∧ keysOf unrelated e
        = (some [⟨[.null, .null]⟩, ⟨[.null, .null]⟩], [[.ofScalar .null], [.ofScalar .null]]) :=
      exists_loaded (fun _ => rowsAt [.ofScalar .null]) (by decide +kernel)
    obtain ⟨ts, hts, hkeys⟩ := Except.exists_of_toOption (Prod.mk.inj hfacts).1
    refine ⟨e, hreached, apart_of_keysOf hfacts (by decide +kernel), ts, hts, hkeys, ?_⟩
    rw [Ne, Blueprint.length_byKey_iff, hkeys]
    decide +kernel
  · obtain ⟨e, hreached, hfacts⟩ : ∃ e, Reached allRows 0 .strict e ∧ keysOf allRows e
        = (some [recordKey, recordKey], [[pairKey, recordKey]]) :=
      exists_loaded (fun _ => rowsAt [recordKey, pairKey]) (by decide +kernel)
    obtain ⟨ts, hts, hkeys⟩ := Except.exists_of_toOption (Prod.mk.inj hfacts).1
    refine ⟨e, hreached, ts, hts, hkeys, ?_⟩
    rw [Ne, Blueprint.length_byKey_iff, hkeys]
    decide +kernel

end Engine

end LiveQuery
