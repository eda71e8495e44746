import LiveQuery.Engine
import LiveQuery.Proofs.Plan.Written
import LiveQuery.Proofs.Tuple
import LiveQuery.Proofs.View.Agreement
import LiveQuery.Proofs.View.Tuples

/-!
# Following changes is deriving anew

A view that is made of inner joins follows changes of its sources: the tuples that bind a changed
row are found through the index, and derived again with the changed rows fixed at one position after
another. A pick of rows that contains no changed row joins as it did before; one that contains some
is tried wherever one of them stands.

**Results.** `Plan.follow_exact`: afterwards the view has just the tuples that are derived from the
new rows, and no tuple was touched but such as bind a changed row.
-/

namespace LiveQuery

/-- The keys that are listed for a position. -/
def listedAt (changed : List (Nat × List Key)) (position : Nat) : List Key :=
  (changed.filter fun entry => entry.1 = position).flatMap Prod.snd

theorem mem_listedAt {changed : List (Nat × List Key)} {position : Nat} {key : Key} :
    key ∈ listedAt changed position ↔ ∃ keys, (position, keys) ∈ changed ∧ key ∈ keys := by
  simp only [listedAt, List.mem_flatMap, List.mem_filter, decide_eq_true_eq]
  constructor
  · rintro ⟨⟨_, keys⟩, ⟨hmem, rfl⟩, hkey⟩
    exact ⟨keys, hmem, hkey⟩
  · rintro ⟨keys, hmem, hkey⟩
    exact ⟨(position, keys), ⟨hmem, rfl⟩, hkey⟩

/-- Positions for which nothing is listed do not count. -/
theorem mem_listedAt_nonempty {changed : List (Nat × List Key)} {position : Nat} {key : Key} :
    key ∈ listedAt changed position ↔
      ∃ keys, (position, keys) ∈ changed.filter (fun entry => !entry.2.isEmpty) ∧ key ∈ keys := by
  rw [mem_listedAt]
  refine exists_congr fun keys => and_congr_left fun hkey => ?_
  rw [List.mem_filter, and_iff_left]
  simpa using List.ne_nil_of_mem hkey

/-- The key of a tuple has a listed key as a part. -/
def Key.Binds (changed : List (Nat × List Key)) (key : Key) : Prop :=
  ∃ position, ∃ k ∈ listedAt changed position, key.parts[position]? = some k.toScalar

/-- Rows change at listed keys only. The keys of the new rows and the listed ones are told apart as
parts of the keys of tuples. -/
structure Rows.ChangesAt (old new : Rows) (keys : List Key) : Prop where
  same : ∀ key ∉ keys, new.get? key = old.get? key
  apart : ∀ k ∈ new.keys ++ keys, ∀ k' ∈ new.keys ++ keys, k.toScalar = k'.toScalar → k = k'

/-- A view has just the tuples of a list. -/
def View.Has (view : View) (ts : List Tuple) : Prop :=
  ∀ key env, view.env? key = some env ↔ ⟨key, env⟩ ∈ ts

namespace JoinPlan

/-! ## Picks by position -/

theorem picks_iff {entries : List (Key × Row)} {sources : List Rows} :
    Picks entries sources ↔ entries.length ≤ sources.length ∧ ∀ (i : Nat) (entry : Key × Row)
      (rows : Rows), entries[i]? = some entry → sources[i]? = some rows → entry ∈ rows.entries := by
  constructor
  · intro h
    induction h with
    | stop sources => exact ⟨Nat.zero_le _, fun i entry rows hi => by cases hi⟩
    | pick mem _ ih =>
        refine ⟨Nat.succ_le_succ ih.1, fun i entry rows hi hrows => ?_⟩
        cases i with
        | zero =>
            cases hi
            cases hrows
            exact mem
        | succ i => exact ih.2 i entry rows hi hrows
  · rintro ⟨hlength, hmem⟩
    induction entries generalizing sources with
    | nil => exact .stop sources
    | cons entry rest ih =>
        cases sources with
        | nil => cases hlength
        | cons rows sources =>
            refine .pick (hmem 0 entry rows rfl rfl) (ih (Nat.le_of_succ_le_succ hlength) ?_)
            exact fun i entry rows hi hrows => hmem (i + 1) entry rows hi hrows

theorem foldl_bind (entries : List (Key × Row)) (t : PartialTuple) :
    entries.foldl PartialTuple.bind t = ⟨t.keys ++ entries.map fun entry => some entry.1,
      t.env ++ entries.map fun entry => .record entry.2⟩ := by
  induction entries generalizing t with
  | nil => simp
  | cons entry rest ih =>
      rw [List.foldl_cons, ih]
      simp [PartialTuple.bind]

theorem tupleOf_eq (entries : List (Key × Row)) :
    tupleOf entries = ⟨⟨entries.map fun entry => entry.1.toScalar⟩,
      entries.map fun entry => .record entry.2⟩ := by
  rw [tupleOf, foldl_bind]
  simp [PartialTuple.complete, Key.composite]

theorem part_tupleOf (entries : List (Key × Row)) (i : Nat) :
    (tupleOf entries).key.parts[i]? = entries[i]?.map fun entry => entry.1.toScalar := by
  rw [tupleOf_eq, List.getElem?_map]

/-! ## The rows that are read -/

/-- The rows of the source of a step, none if they cannot be read. -/
def rowsRead (ev : Evaluator) (step : JoinStep) : Rows :=
  (ev.inputs.rows step.source []).toOption.getD OrdMap.empty

theorem rowsRead_eq {ev : Evaluator} {step : JoinStep} {rows : Rows}
    (h : ev.inputs.rows step.source [] = .ok rows) : rowsRead ev step = rows := by
  rw [rowsRead, h]
  rfl

/-- The rows of the sources of some steps, with those at one position fixed. -/
def fixedRows (ev : Evaluator) (p : Nat) (rows : Rows) (steps : List JoinStep) : List Rows :=
  steps.mapIdx fun i step => if i = p then rows else rowsRead ev step

section

variable {ev ev' : Evaluator} {steps : List JoinStep}

theorem picks_read {entries : List (Key × Row)} :
    Picks entries (steps.map (rowsRead ev)) ↔ entries.length ≤ steps.length ∧
      ∀ (i : Nat) (entry : Key × Row) (step : JoinStep), entries[i]? = some entry →
        steps[i]? = some step → entry ∈ (rowsRead ev step).entries := by
  rw [picks_iff, List.length_map]
  refine and_congr_right fun _ => forall_congr' fun i => forall_congr' fun entry => ?_
  rw [List.getElem?_map]
  constructor
  · exact fun h step hi hstep => h _ hi (by rw [hstep]; rfl)
  · rintro h _ hi hrows
    obtain ⟨step, hstep, rfl⟩ := Option.map_eq_some_iff.1 hrows
    exact h step hi hstep

theorem supplied_read (inner : ∀ step ∈ steps, step.Inner)
    (hread : ∀ step ∈ steps, ev.inputs.rows step.source [] = .ok (rowsRead ev step))
    (position : Nat) : Supplied ev [] none position steps (steps.map (rowsRead ev)) := by
  induction steps generalizing position with
  | nil => exact .done position
  | cons step rest ih =>
      obtain ⟨hstep, hrest⟩ := List.forall_mem_cons.1 inner
      obtain ⟨hreadStep, hreadRest⟩ := List.forall_mem_cons.1 hread
      refine .step ?_ (ih hrest hreadRest _)
      simp only [sharedRows, hstep.shared, hreadStep]
      rfl

theorem supplied_fixed (inner : ∀ step ∈ steps, step.Inner)
    (hread : ∀ step ∈ steps, ev.inputs.rows step.source [] = .ok (rowsRead ev step))
    (p : Nat) (rows : Rows) (position : Nat) :
    Supplied ev [] (some (p, rows)) position steps
      (steps.mapIdx fun i step => if position + i = p then rows else rowsRead ev step) := by
  induction steps generalizing position with
  | nil => exact .done position
  | cons step rest ih =>
      obtain ⟨hstep, hrest⟩ := List.forall_mem_cons.1 inner
      obtain ⟨hreadStep, hreadRest⟩ := List.forall_mem_cons.1 hread
      rw [List.mapIdx_cons]
      refine .step ?_ ?_
      · by_cases hp : p = position
        · simp [sharedRows, hp]
        · simp [sharedRows, hp, Ne.symm hp, hstep.shared, hreadStep, Functor.map, Except.map]
      · have := ih hrest hreadRest (position + 1)
        simpa only [Nat.add_assoc, Nat.add_comm 1] using this

/-- Whether picked rows join depends on the expressions of the joins only. -/
theorem trial_eq {es : List Expr} (h : ev.Agrees ev' es) (body : BodyId) (outer : List Frame)
    {filter : Option Expr} (hfilter : Expr.subtermsOf filter.toList ⊆ es)
    (hcond : ∀ step ∈ steps, Expr.subtermsOf step.condition.toList ⊆ es) (t : PartialTuple)
    (entries : List (Key × Row)) :
    trial ev body outer filter t steps entries = trial ev' body outer filter t steps entries := by
  induction steps generalizing t entries with
  | nil => exact h.admits_eq _ _ hfilter
  | cons step rest ih =>
      obtain ⟨hstep, hrest⟩ := List.forall_mem_cons.1 hcond
      cases entries with
      | nil => rfl
      | cons entry entries =>
          simp only [trial]
          rw [h.admits_eq _ _ hstep]
          simp only [ih hrest]

end

/-- Picks with the rows at one position fixed to those of some keys. -/
theorem picks_fixedRows {ev : Evaluator} {steps : List JoinStep} {p : Nat} {step : JoinStep}
    (hp : steps[p]? = some step) {keys : List Key} {rows : Rows}
    (hrows : ∀ entry, entry ∈ rows.entries ↔ entry.1 ∈ keys ∧ entry ∈ (rowsRead ev step).entries)
    {entries : List (Key × Row)} :
    Picks entries (fixedRows ev p rows steps) ↔ Picks entries (steps.map (rowsRead ev)) ∧
      ∀ entry, entries[p]? = some entry → entry.1 ∈ keys := by
  rw [picks_iff, picks_read, fixedRows, List.length_mapIdx]
  simp only [List.getElem?_mapIdx]
  constructor
  · rintro ⟨hlength, hmem⟩
    refine ⟨⟨hlength, fun i entry step' hi hstep' => ?_⟩, fun entry hentry => ?_⟩
    · have := hmem i entry _ hi (by rw [hstep']; rfl)
      split at this
      next heq =>
        obtain rfl : step' = step := Option.some.inj ((heq ▸ hstep').symm.trans hp)
        exact ((hrows entry).1 this).2
      · exact this
    · have hfixed : entry ∈ rows.entries := hmem p entry rows hentry (by rw [hp]; simp)
      exact ((hrows entry).1 hfixed).1
  · rintro ⟨⟨hlength, hmem⟩, hkeys⟩
    refine ⟨hlength, fun i entry rows' hi hrows' => ?_⟩
    obtain ⟨step', hstep', rfl⟩ := Option.map_eq_some_iff.1 hrows'
    have hread := hmem i entry step' hi hstep'
    split
    next heq =>
      subst heq
      obtain rfl : step' = step := Option.some.inj (hstep'.symm.trans hp)
      exact (hrows entry).2 ⟨hkeys entry hi, hread⟩
    · exact hread

/-! ## Tuples that rows make -/

/-- The joins are inner, and their sources can be read. -/
structure Readable (joins : JoinPlan) (ev : Evaluator) : Prop where
  inner : ∀ step ∈ joins.steps, step.Inner
  read : ∀ step ∈ joins.steps, ev.inputs.rows step.source [] = .ok (rowsRead ev step)

/-- Whether picked rows join, as far as they go. -/
def tryPick (joins : JoinPlan) (ev : Evaluator) (entries : List (Key × Row)) :
    Except EvalError Bool :=
  trial ev joins.body [] joins.filter {} joins.steps entries

/-- Rows of all sources are picked that join. -/
structure Makes (joins : JoinPlan) (ev : Evaluator) (entries : List (Key × Row)) : Prop where
  picks : Picks entries (joins.steps.map (rowsRead ev))
  length : entries.length = joins.steps.length
  joined : joins.tryPick ev entries = .ok true

namespace Readable

variable {joins : JoinPlan} {ev : Evaluator} {ts : List Tuple}

theorem exists_enumerate (h : joins.Readable ev) :
    (∃ ts, joins.enumerate ev [] none = .ok ts) ↔
      ∀ entries, Picks entries (joins.steps.map (rowsRead ev)) →
        ∃ joined, joins.tryPick ev entries = .ok joined :=
  exists_enumerate_iff h.inner (supplied_read h.inner h.read 0)

theorem mem_all (h : joins.Readable ev) (hts : joins.enumerate ev [] none = .ok ts) {x : Tuple} :
    x ∈ ts ↔ ∃ entries, joins.Makes ev entries ∧ x = tupleOf entries := by
  rw [mem_enumerate h.inner (supplied_read h.inner h.read 0) hts]
  exact exists_congr fun entries =>
    ⟨fun ⟨hpicks, hlength, hjoined, hx⟩ => ⟨⟨hpicks, hlength, hjoined⟩, hx⟩,
      fun ⟨hmakes, hx⟩ => ⟨hmakes.picks, hmakes.length, hmakes.joined, hx⟩⟩

theorem supplied (h : joins.Readable ev) (p : Nat) (rows : Rows) :
    Supplied ev [] (some (p, rows)) 0 joins.steps (fixedRows ev p rows joins.steps) := by
  simpa only [Nat.zero_add, fixedRows] using supplied_fixed h.inner h.read p rows 0

end Readable

end JoinPlan

open JoinPlan

namespace Blueprint

variable {b : Blueprint} {ev ev' : Evaluator}

/-- The rows of some keys among the rows there are. -/
theorem mem_rowsOf {current : Rows} {keys : List Key} {entry : Key × Row} :
    entry ∈ (OrdMap.ofList (keys.filterMap fun key => (current.get? key).map (key, ·))).entries ↔
      entry.1 ∈ keys ∧ entry ∈ current.entries := by
  obtain ⟨key, row⟩ := entry
  have hlisted : ∀ entry ∈ keys.filterMap fun key => (current.get? key).map (key, ·),
      entry.1 ∈ keys ∧ current.get? entry.1 = some entry.2 := by
    intro entry hentry
    obtain ⟨key, hkey, hsome⟩ := List.mem_filterMap.1 hentry
    obtain ⟨row, hrow, rfl⟩ := Option.map_eq_some_iff.1 hsome
    exact ⟨hkey, hrow⟩
  rw [← OrdMap.get?_eq_some_iff, ← OrdMap.get?_eq_some_iff]
  constructor
  · intro h
    exact hlisted _ (OrdMap.mem_of_get?_ofList h)
  · rintro ⟨hkey, hrow⟩
    have hmem : (key, row) ∈ keys.filterMap fun key => (current.get? key).map (key, ·) :=
      List.mem_filterMap.2 ⟨key, hkey, by rw [hrow]; rfl⟩
    obtain ⟨row', hrow'⟩ := OrdMap.exists_get?_ofList (List.mem_map_of_mem (f := Prod.fst) hmem)
    have := (hlisted _ (OrdMap.mem_of_get?_ofList hrow')).2
    rw [hrow', ← hrow, this]

section

variable {p : Nat} {keys : List Key} {ts : List Tuple}

/-- What is derived with the rows of some keys fixed at a position, when there is a source. -/
theorem deriveChanged_eq (h : b.joins.Readable ev) {step : JoinStep}
    (hp : b.joins.steps[p]? = some step) : b.deriveChanged ev p keys = b.joins.enumerate ev []
      (some (p, OrdMap.ofList
        (keys.filterMap fun key => ((rowsRead ev step).get? key).map (key, ·)))) := by
  rw [deriveChanged, hp]
  simp only [h.read step (List.mem_of_getElem? hp)]
  rfl

/-- The rows of some keys at a position make the tuples that bind one of them there. -/
theorem mem_deriveChanged (h : b.joins.Readable ev) (hts : b.deriveChanged ev p keys = .ok ts)
    {x : Tuple} : x ∈ ts ↔ ∃ entries, b.joins.Makes ev entries ∧
      (∃ entry, entries[p]? = some entry ∧ entry.1 ∈ keys) ∧ x = tupleOf entries := by
  cases hp : b.joins.steps[p]? with
  | none =>
      rw [deriveChanged, hp] at hts
      cases hts
      refine ⟨fun hx => absurd hx List.not_mem_nil, ?_⟩
      rintro ⟨entries, hmakes, ⟨entry, hentry, -⟩, -⟩
      rw [List.getElem?_eq_none (hmakes.length ▸ List.getElem?_eq_none_iff.1 hp)] at hentry
      cases hentry
  | some step =>
      rw [deriveChanged_eq h hp] at hts
      rw [mem_enumerate h.inner (h.supplied p _) hts]
      refine exists_congr fun entries => ?_
      rw [picks_fixedRows hp fun entry => mem_rowsOf]
      constructor
      · rintro ⟨⟨hpicks, hkeys⟩, hlength, hjoined, hx⟩
        have hlt : p < entries.length := hlength ▸ (List.getElem?_eq_some_iff.1 hp).1
        have hentry := List.getElem?_eq_getElem hlt
        exact ⟨⟨hpicks, hlength, hjoined⟩, ⟨_, hentry, hkeys _ hentry⟩, hx⟩
      · rintro ⟨hmakes, ⟨entry, hentry, hkey⟩, hx⟩
        refine ⟨⟨hmakes.picks, fun entry' hentry' => ?_⟩, hmakes.length, hmakes.joined, hx⟩
        obtain rfl := Option.some.inj (hentry.symm.trans hentry')
        exact hkey

/-- Once they are derived, every pick of rows with one of some keys at a position can be tried. -/
theorem exists_tryPick (h : b.joins.Readable ev) (hts : b.deriveChanged ev p keys = .ok ts)
    {entries : List (Key × Row)} (hpicks : Picks entries (b.joins.steps.map (rowsRead ev)))
    {entry : Key × Row} (hentry : entries[p]? = some entry) (hkey : entry.1 ∈ keys) :
    ∃ joined, b.joins.tryPick ev entries = .ok joined := by
  obtain ⟨step, hp⟩ : ∃ step, b.joins.steps[p]? = some step := by
    have hlt := (List.getElem?_eq_some_iff.1 hentry).1
    exact ⟨_, List.getElem?_eq_getElem (Nat.lt_of_lt_of_le hlt (picks_read.1 hpicks).1)⟩
  rw [deriveChanged_eq h hp] at hts
  refine (exists_enumerate_iff h.inner (h.supplied p _)).1 ⟨ts, hts⟩ entries ?_
  refine (picks_fixedRows hp fun entry => mem_rowsOf).2 ⟨hpicks, fun entry' hentry' => ?_⟩
  obtain rfl := Option.some.inj (hentry.symm.trans hentry')
  exact hkey

end

/-- All changed rows are looked at, at every position where they are listed. -/
theorem mem_deriveAllChanged {changed : List (Nat × List Key)} {derived : List Tuple}
    (h : b.deriveAllChanged ev changed = .ok derived) :
    (∀ entry ∈ changed, ∃ ts, b.deriveChanged ev entry.1 entry.2 = .ok ts) ∧
      ∀ x, x ∈ derived ↔ ∃ entry ∈ changed, ∃ ts,
        b.deriveChanged ev entry.1 entry.2 = .ok ts ∧ x ∈ ts := by
  induction changed generalizing derived with
  | nil =>
      cases h
      simp
  | cons entry rest ih =>
      obtain ⟨ts, hts, h⟩ := Except.bind_eq_ok.1 h
      obtain ⟨others, hothers, h⟩ := Except.bind_eq_ok.1 h
      obtain rfl := Except.pure_eq_ok.1 h
      obtain ⟨hall, hmem⟩ := ih hothers
      refine ⟨List.forall_mem_cons.2 ⟨⟨ts, hts⟩, hall⟩, fun x => ?_⟩
      rw [List.mem_append, hmem, List.exists_mem_cons_iff]
      simp [hts]

/-- The sources of a body before and after changes at listed keys. -/
structure Changes (b : Blueprint) (ev ev' : Evaluator) (changed : List (Nat × List Key)) :
    Prop where
  old : b.joins.Readable ev
  new : b.joins.Readable ev'
  tries : ∀ entries, b.joins.tryPick ev entries = b.joins.tryPick ev' entries
  rows : ∀ position step, b.joins.steps[position]? = some step →
    (rowsRead ev step).ChangesAt (rowsRead ev' step) (listedAt changed position)

/-- Picked rows contain one of a listed key. -/
def Touched (changed : List (Nat × List Key)) (entries : List (Key × Row)) : Prop :=
  ∃ i, ∃ entry : Key × Row, entries[i]? = some entry ∧ entry.1 ∈ listedAt changed i

namespace Changes

variable {changed : List (Nat × List Key)} {entries : List (Key × Row)}

/-- Picks without changed rows are the same before and after. -/
theorem picks_iff_of_untouched (h : b.Changes ev ev' changed) (hnot : ¬Touched changed entries) :
    Picks entries (b.joins.steps.map (rowsRead ev)) ↔
      Picks entries (b.joins.steps.map (rowsRead ev')) := by
  rw [picks_read, picks_read]
  refine and_congr_right fun _ => forall_congr' fun i => forall_congr' fun entry =>
    forall_congr' fun step => forall_congr' fun hi => forall_congr' fun hstep => ?_
  obtain ⟨key, row⟩ := entry
  rw [← OrdMap.get?_eq_some_iff, ← OrdMap.get?_eq_some_iff,
    (h.rows i step hstep).same key fun hmem => hnot ⟨i, _, hi, hmem⟩]

theorem makes_iff_of_untouched (h : b.Changes ev ev' changed) (hnot : ¬Touched changed entries) :
    b.joins.Makes ev entries ↔ b.joins.Makes ev' entries := by
  have hpicks := h.picks_iff_of_untouched hnot
  constructor
  · exact fun hmakes => ⟨hpicks.1 hmakes.picks, hmakes.length, h.tries entries ▸ hmakes.joined⟩
  · exact fun hmakes => ⟨hpicks.2 hmakes.picks, hmakes.length, h.tries entries ▸ hmakes.joined⟩

/-- A part of the key of new rows tells which row it is, also among the listed keys. -/
theorem key_of_part (h : b.Changes ev ev' changed)
    (hpicks : Picks entries (b.joins.steps.map (rowsRead ev'))) {i : Nat} {entry : Key × Row}
    (hi : entries[i]? = some entry) {step : JoinStep} (hstep : b.joins.steps[i]? = some step)
    {key : Key} (hkey : key ∈ (rowsRead ev' step).keys ++ listedAt changed i)
    (hpart : entry.1.toScalar = key.toScalar) : entry.1 = key := by
  have hmem : entry.1 ∈ (rowsRead ev' step).keys :=
    List.mem_map_of_mem ((picks_read.1 hpicks).2 i entry step hi hstep)
  exact (h.rows i step hstep).apart _ (List.mem_append_left _ hmem) key hkey hpart

/-- New rows that make a tuple are known from its key. -/
theorem eq_of_key (h : b.Changes ev ev' changed) {entries' : List (Key × Row)}
    (hmakes : b.joins.Makes ev' entries) (hmakes' : b.joins.Makes ev' entries')
    (hkey : (tupleOf entries).key = (tupleOf entries').key) : entries = entries' := by
  refine List.ext_getElem? fun i => ?_
  have hpart : entries[i]?.map (fun entry => entry.1.toScalar)
      = entries'[i]?.map fun entry => entry.1.toScalar := by
    rw [← part_tupleOf, ← part_tupleOf, hkey]
  cases hstep : b.joins.steps[i]? with
  | none =>
      have hlength := List.getElem?_eq_none_iff.1 hstep
      rw [List.getElem?_eq_none (hmakes.length ▸ hlength),
        List.getElem?_eq_none (hmakes'.length ▸ hlength)]
  | some step =>
      have hlt := (List.getElem?_eq_some_iff.1 hstep).1
      have hi := List.getElem?_eq_getElem (hmakes.length ▸ hlt)
      have hi' := List.getElem?_eq_getElem (hmakes'.length ▸ hlt)
      rw [hi, hi'] at hpart ⊢
      have hmem := (picks_read.1 hmakes.picks).2 i _ step hi hstep
      have hmem' := (picks_read.1 hmakes'.picks).2 i _ step hi' hstep
      have heq := h.key_of_part hmakes.picks hi hstep
        (List.mem_append_left _ (List.mem_map_of_mem hmem')) (Option.some.inj hpart)
      rw [← OrdMap.get?_eq_some_iff] at hmem hmem'
      rw [heq, hmem'] at hmem
      exact congrArg some (Prod.ext heq (Option.some.inj hmem).symm)

/-- The new rows can be joined when all changed rows could be. -/
theorem exists_enumerate (h : b.Changes ev ev' changed) {ts : List Tuple}
    (hts : b.joins.enumerate ev [] none = .ok ts)
    (hderive : ∀ i, ∀ keys, (i, keys) ∈ changed → keys ≠ [] →
      ∃ ts, b.deriveChanged ev' i keys = .ok ts) :
    ∃ ts', b.joins.enumerate ev' [] none = .ok ts' := by
  refine h.new.exists_enumerate.2 fun entries hpicks => ?_
  by_cases htouched : Touched changed entries
  · obtain ⟨i, entry, hi, hlisted⟩ := htouched
    obtain ⟨keys, hmem, hkey⟩ := mem_listedAt.1 hlisted
    obtain ⟨ts, hts⟩ := hderive i keys hmem (List.ne_nil_of_mem hkey)
    exact exists_tryPick h.new hts hpicks hi hkey
  · rw [← h.tries]
    exact h.old.exists_enumerate.1 ⟨ts, hts⟩ entries ((h.picks_iff_of_untouched htouched).2 hpicks)

/-- What is derived for the listed keys are the new tuples with a row of one of them. -/
theorem mem_derived (h : b.Changes ev ev' changed) {derived : List Tuple}
    (hderive : b.deriveAllChanged ev' (changed.filter fun entry => !entry.2.isEmpty) = .ok derived)
    {x : Tuple} :
    x ∈ derived ↔ ∃ entries, b.joins.Makes ev' entries ∧ Touched changed entries ∧
      x = tupleOf entries := by
  obtain ⟨hall, hmem⟩ := mem_deriveAllChanged hderive
  rw [hmem]
  constructor
  · rintro ⟨⟨i, keys⟩, hkeys, ts, hts, hx⟩
    obtain ⟨entries, hmakes, ⟨entry, hi, hkey⟩, rfl⟩ := (mem_deriveChanged h.new hts).1 hx
    exact ⟨entries, hmakes, ⟨i, entry, hi, mem_listedAt_nonempty.2 ⟨keys, hkeys, hkey⟩⟩, rfl⟩
  · rintro ⟨entries, hmakes, ⟨i, entry, hi, hkey⟩, rfl⟩
    obtain ⟨keys, hkeys, hkey⟩ := mem_listedAt_nonempty.1 hkey
    obtain ⟨ts, hts⟩ := hall _ hkeys
    exact ⟨_, hkeys, ts, hts, (mem_deriveChanged h.new hts).2 ⟨entries, hmakes, ⟨entry, hi, hkey⟩,
      rfl⟩⟩

end Changes

theorem mem_staleTuples {view : View} {position : Nat} {keys : List Key} {key : Key} :
    key ∈ staleTuples view position keys ↔
      ∃ k ∈ keys, PartIndex.Lists view.parts position k.toScalar key := by
  rw [staleTuples, List.mem_flatMap]
  refine exists_congr fun k => and_congr_right fun _ => ?_
  rw [PartIndex.Lists]
  cases (view.parts.getD position OrdMap.empty).get? k.toScalar with
  | none => simp
  | some keys => simp

/-- The index is searched for the keys that are listed. -/
theorem mem_staleKeys {view : View} {changed : List (Nat × List Key)} {key : Key} :
    key ∈ (OrdSet.ofList ((changed.filter fun entry => !entry.2.isEmpty).flatMap
        fun entry => staleTuples view entry.1 entry.2)).keys ↔
      ∃ position, ∃ k ∈ listedAt changed position,
        PartIndex.Lists view.parts position k.toScalar key := by
  rw [OrdSet.mem_keys_ofList, List.mem_flatMap]
  simp only [mem_staleTuples, mem_listedAt_nonempty]
  constructor
  · rintro ⟨⟨i, keys⟩, hkeys, k, hk, hlists⟩
    exact ⟨i, k, ⟨keys, hkeys, hk⟩, hlists⟩
  · rintro ⟨i, k, ⟨keys, hkeys, hk⟩, hlists⟩
    exact ⟨(i, keys), hkeys, k, hk, hlists⟩

theorem mem_of_byKey {tuples : List Tuple} {key : Key} {env : List Scalar}
    (h : (byKey tuples).get? key = some env) : ⟨key, env⟩ ∈ tuples := by
  obtain ⟨t, ht, heq⟩ := List.mem_map.1 (OrdMap.mem_of_get?_ofList h)
  cases heq
  exact ht

theorem exists_byKey {tuples : List Tuple} {t : Tuple} (h : t ∈ tuples) :
    ∃ env, (byKey tuples).get? t.key = some env :=
  OrdMap.exists_get?_ofList
    (List.mem_map_of_mem (List.mem_map_of_mem (f := fun t => (t.key, t.env)) h))

section

variable {changed : List (Nat × List Key)} {view after : View} {ts ts' derived : List Tuple}
  {stale : List Key}

/-- A tuple that is found in the index binds a listed key. -/
theorem binds_of_stale (indexed : view.Indexed b) {position : Nat} {k key : Key}
    (hk : k ∈ listedAt changed position)
    (hlists : PartIndex.Lists view.parts position k.toScalar key) : key.Binds changed :=
  ⟨position, k, hk, indexed.sound position _ key hlists⟩

theorem binds_of_touched {entries : List (Key × Row)} (h : Touched changed entries) :
    (tupleOf entries).key.Binds changed := by
  obtain ⟨i, entry, hi, hlisted⟩ := h
  exact ⟨i, entry.1, hlisted, by rw [part_tupleOf, hi]; rfl⟩

/-- New rows that make a tuple which binds a listed key contain a row of that key. -/
theorem Changes.touched_of_binds (h : b.Changes ev ev' changed) {entries : List (Key × Row)}
    (hmakes : b.joins.Makes ev' entries) (hbinds : (tupleOf entries).key.Binds changed) :
    Touched changed entries := by
  obtain ⟨i, k, hk, hpart⟩ := hbinds
  rw [part_tupleOf] at hpart
  obtain ⟨entry, hi, hpart⟩ := Option.map_eq_some_iff.1 hpart
  have hlt : i < b.joins.steps.length := hmakes.length ▸ (List.getElem?_eq_some_iff.1 hi).1
  have hkey := h.key_of_part hmakes.picks hi (List.getElem?_eq_getElem hlt)
    (List.mem_append_right _ hk) hpart
  exact ⟨i, entry, hi, hkey ▸ hk⟩

/-- The tuples found in the index go, those derived come, and all others stay: then the view has
the tuples of the new rows. -/
theorem Changes.has (h : b.Changes ev ev' changed) (indexed : view.Indexed b)
    (hts : b.joins.enumerate ev [] none = .ok ts) (has : view.Has ts)
    (hderived : ∀ x, x ∈ derived ↔ ∃ entries, b.joins.Makes ev' entries ∧
      Touched changed entries ∧ x = tupleOf entries)
    (hstale : ∀ key, key ∈ stale ↔ ∃ position, ∃ k ∈ listedAt changed position,
      PartIndex.Lists view.parts position k.toScalar key)
    (henv : ∀ key, after.env? key
      = ((byKey derived).get? key).or (if key ∈ stale then none else view.env? key))
    (hts' : b.joins.enumerate ev' [] none = .ok ts') : after.Has ts' := by
  intro key env
  rw [henv, h.new.mem_all hts']
  cases hkey : (byKey derived).get? key with
  | some env₀ =>
      -- the tuple was derived, and no other one of the new rows has its key
      obtain ⟨entries, hmakes, -, htuple⟩ := (hderived _).1 (mem_of_byKey hkey)
      have hkeys : key = (tupleOf entries).key := congrArg Tuple.key htuple
      constructor
      · intro hsome
        obtain rfl := Option.some.inj hsome
        exact ⟨entries, hmakes, htuple⟩
      · rintro ⟨entries', hmakes', htuple'⟩
        have hkeys' : key = (tupleOf entries').key := congrArg Tuple.key htuple'
        obtain rfl := h.eq_of_key hmakes hmakes' (hkeys.symm.trans hkeys')
        exact congrArg some (congrArg Tuple.env (htuple.trans htuple'.symm))
  | none =>
      have hnot : ∀ entries, b.joins.Makes ev' entries → ⟨key, env⟩ = tupleOf entries →
          ¬Touched changed entries := by
        intro entries hmakes htuple htouched
        obtain ⟨_, hsome⟩ := exists_byKey ((hderived _).2 ⟨entries, hmakes, htouched, htuple⟩)
        cases hkey.symm.trans hsome
      rw [Option.none_or]
      split
      next hmem =>
        -- the tuple is gone, since one with its key would bind a listed key and be derived
        obtain ⟨position, k, hk, hlists⟩ := (hstale key).1 hmem
        refine ⟨fun hsome => (by cases hsome), ?_⟩
        rintro ⟨entries, hmakes, htuple⟩
        have hbinds : (tupleOf entries).key.Binds changed := by
          rw [← htuple]
          exact binds_of_stale indexed hk hlists
        exact absurd (h.touched_of_binds hmakes hbinds) (hnot entries hmakes htuple)
      next hmem =>
        -- the tuple binds no listed key, so it is made of rows that stayed
        rw [has, h.old.mem_all hts]
        constructor
        · rintro ⟨entries, hmakes, htuple⟩
          have huntouched : ¬Touched changed entries := by
            rintro ⟨i, entry, hi, hlisted⟩
            have hlt : i < b.joins.steps.length :=
              hmakes.length ▸ (List.getElem?_eq_some_iff.1 hi).1
            have hpart : key.parts[i]? = some entry.1.toScalar := by
              rw [show key = (tupleOf entries).key from congrArg Tuple.key htuple, part_tupleOf, hi]
              rfl
            have hview : view.env? key = some env :=
              (has key env).2 ((h.old.mem_all hts).2 ⟨entries, hmakes, htuple⟩)
            obtain ⟨bound, hbound, -⟩ := Option.map_eq_some_iff.1 hview
            exact hmem ((hstale key).2 ⟨i, entry.1, hlisted, indexed.complete key
              (OrdMap.mem_keys.2 ⟨bound, hbound⟩) i hlt _ hpart⟩)
          exact ⟨entries, (h.makes_iff_of_untouched huntouched).1 hmakes, htuple⟩
        · rintro ⟨entries, hmakes, htuple⟩
          exact ⟨entries, (h.makes_iff_of_untouched (hnot entries hmakes htuple)).2 hmakes, htuple⟩

/-- A view that has followed changes has the tuples of the new rows. It has taken out and added only
tuples that bind a listed key. -/
theorem Changes.follow (h : b.Changes ev ev' changed) (indexed : view.Indexed b)
    (hts : b.joins.enumerate ev [] none = .ok ts) (has : view.Has ts) {changes : List Change}
    (hfollow : b.follow ev' changed view = .ok changes after) :
    (∃ ts', b.joins.enumerate ev' [] none = .ok ts' ∧ after.Has ts') ∧
      ∃ outdated added touched mid, b.replaceTuples ev' [] outdated added view = .ok touched mid ∧
        b.refresh ev' [] touched mid = .ok changes after ∧
        ∀ key ∈ outdated ++ added.map Tuple.key, key.Binds changed := by
  unfold Blueprint.follow at hfollow
  obtain ⟨derived, _, hrun, hrest⟩ := bind_eq_ok.1 hfollow
  obtain ⟨hderive, hsame⟩ := Upkeep.ofExcept_eq_ok.1 hrun
  rw [hsame] at hrest
  obtain ⟨_, _, hget, hrest⟩ := bind_eq_ok.1 hrest
  cases hget
  obtain ⟨touched, mid, hreplace, hrefresh⟩ := bind_eq_ok.1 hrest
  have hderived := fun x => h.mem_derived hderive (x := x)
  constructor
  · obtain ⟨ts', hts'⟩ := h.exists_enumerate hts fun i keys hmem hne =>
      (mem_deriveAllChanged hderive).1 (i, keys) (List.mem_filter.2 ⟨hmem, by simpa using hne⟩)
    have hafter : after.bindings = mid.bindings :=
      (b.keepsBindings_refresh ev' [] touched).of_ok hrefresh
    refine ⟨ts', hts', h.has indexed hts has hderived (fun _ => mem_staleKeys) (fun key => ?_) hts'⟩
    rw [← env?_replaceTuples hreplace key, View.env?, View.env?,
      show after.tuples = mid.tuples from (Prod.mk.inj hafter).1]
  · refine ⟨_, _, touched, mid, hreplace, hrefresh, fun key hkey => ?_⟩
    rcases List.mem_append.1 hkey with hkey | hkey
    · obtain ⟨position, k, hk, hlists⟩ := mem_staleKeys.1 (mem_outdated.1 hkey).1
      exact binds_of_stale indexed hk hlists
    · obtain ⟨t, ht, rfl⟩ := List.mem_map.1 hkey
      obtain ⟨entries, -, htouched, htuple⟩ :=
        (hderived _).1 (mem_of_byKey (mem_newTuples.1 ht).1)
      rw [show t.key = (tupleOf entries).key from congrArg Tuple.key htuple]
      exact binds_of_touched htouched

end

end Blueprint

namespace Plan

variable {plan : Plan} {id : BodyId}

/-- A body that can follow changes is made of inner joins, and reads each source once. -/
theorem inner_of_incremental (incremental : plan.isIncremental id = true) :
    ∀ step ∈ (plan.joinPlan id).steps, step.Inner := by
  rw [isIncremental, Bool.and_eq_true, Body.innerOnly, List.all_eq_true, Bool.not_eq_true',
    evaluatesOthers, Bool.or_eq_false_iff] at incremental
  obtain ⟨hinner, -, hlateral⟩ := incremental
  rw [List.any_eq_false] at hlateral
  intro step hstep
  obtain ⟨source, hsource, rfl⟩ := List.mem_map.1 hstep
  have hjoin := hinner source hsource
  rw [Bool.or_eq_true, decide_eq_true_eq, decide_eq_true_eq] at hjoin
  constructor
  · rcases hjoin with hjoin | hjoin <;> simp [JoinStep.keepsLeft, hjoin, JoinKind.keepsLeft]
  · rcases hjoin with hjoin | hjoin <;> simp [JoinStep.keepsRight, hjoin, JoinKind.keepsRight]
  · exact eq_false_of_ne_true (hlateral source hsource)

/-- Its conditions evaluate no subqueries. -/
theorem no_subquery_of_incremental (incremental : plan.isIncremental id = true) {sub : BodyId}
    {n : ExprId} : .subquery n sub ∉ Expr.subtermsOf (plan.body id).expressions := by
  rw [isIncremental, Bool.and_eq_true, Bool.not_eq_true', evaluatesOthers,
    Bool.or_eq_false_iff, List.any_eq_false] at incremental
  intro hmem
  obtain ⟨top, htop, hmem⟩ := Expr.mem_subtermsOf.1 hmem
  exact incremental.2.1 top htop (List.any_eq_true.2 ⟨_, hmem, rfl⟩)

theorem flat_of_incremental {graph : Graph} (incremental : plan.isIncremental id = true) :
    (plan.blueprint graph id).nested = false := by
  rw [isIncremental, Bool.and_eq_true, Bool.not_eq_true', evaluatesOthers,
    Bool.or_eq_false_iff] at incremental
  exact incremental.2.1

theorem conditions_subset_expressions (plan : Plan) (id : BodyId) :
    ∀ step ∈ (plan.joinPlan id).steps, step.condition.toList ⊆ (plan.body id).expressions := by
  intro step hstep e he
  obtain ⟨source, -, rfl⟩ := List.mem_map.1 hstep
  have hlookup := mem_of_lookup (Option.mem_toList.1 he)
  exact Body.joinExprs_subset_expressions _ (List.mem_map_of_mem (f := Prod.snd) hlookup)

/-- A view of a body of inner joins that follows changes has afterwards just the tuples that are
derived from the new rows, and has taken out and added only tuples that bind a listed key. -/
theorem follow_exact {graph : Graph} (incremental : plan.isIncremental id = true)
    {policy : FieldPolicy} {inputs inputs' : Inputs} {view after : View}
    (reached : (plan.blueprint graph id).Reached view) {ts : List Tuple}
    (before : (plan.joinPlan id).enumerate { plan, policy, inputs } [] none = .ok ts)
    (has : view.Has ts) {changed : List (Nat × List Key)}
    (rows : ∀ (position : Nat) (source : Source),
      (plan.body id).sources[position]? = some source → ∃ old new,
        inputs.rows source [] = .ok old ∧ inputs'.rows source [] = .ok new ∧
          old.ChangesAt new (listedAt changed position)) {changes : List Change}
    (followed : (plan.blueprint graph id).follow { plan, policy, inputs := inputs' } changed view
      = .ok changes after) :
    (∃ ts', (plan.joinPlan id).enumerate { plan, policy, inputs := inputs' } [] none = .ok ts' ∧
        after.Has ts') ∧
      ∃ outdated added touched mid,
        (plan.blueprint graph id).replaceTuples { plan, policy, inputs := inputs' } []
          outdated added view = .ok touched mid ∧
        (plan.blueprint graph id).refresh { plan, policy, inputs := inputs' } [] touched mid
          = .ok changes after ∧
        ∀ key ∈ outdated ++ added.map Tuple.key, key.Binds changed := by
  have hinner := inner_of_incremental incremental
  have hsource : ∀ (position : Nat) (step : JoinStep),
      (plan.joinPlan id).steps[position]? = some step →
        (plan.body id).sources[position]? = some step.source := by
    intro position step hstep
    rw [joinPlan, List.getElem?_map] at hstep
    obtain ⟨source, hsource, rfl⟩ := Option.map_eq_some_iff.1 hstep
    exact hsource
  have hagrees : Evaluator.Agrees { plan, policy, inputs } { plan, policy, inputs := inputs' }
      (Expr.subtermsOf (plan.body id).expressions) :=
    ⟨rfl, rfl, fun _ _ hmem => absurd hmem (no_subquery_of_incremental incremental)⟩
  have hchanges : (plan.blueprint graph id).Changes { plan, policy, inputs }
      { plan, policy, inputs := inputs' } changed := by
    constructor
    case old =>
      refine ⟨hinner, fun step hstep => ?_⟩
      obtain ⟨position, hposition⟩ := List.mem_iff_getElem?.1 hstep
      obtain ⟨old, -, hold, -⟩ := rows position _ (hsource position step hposition)
      rw [JoinPlan.rowsRead_eq hold]
      exact hold
    case new =>
      refine ⟨hinner, fun step hstep => ?_⟩
      obtain ⟨position, hposition⟩ := List.mem_iff_getElem?.1 hstep
      obtain ⟨-, new, -, hnew, -⟩ := rows position _ (hsource position step hposition)
      rw [JoinPlan.rowsRead_eq hnew]
      exact hnew
    case tries =>
      intro entries
      refine JoinPlan.trial_eq hagrees _ _ ?_ ?_ {} entries
      · exact Expr.subtermsOf_subset (Body.filter_subset_expressions _)
      · intro step hstep
        exact Expr.subtermsOf_subset (conditions_subset_expressions plan id step hstep)
    case rows =>
      intro position step hstep
      obtain ⟨old, new, hold, hnew, hchange⟩ := rows position _ (hsource position step hstep)
      rw [JoinPlan.rowsRead_eq hold, JoinPlan.rowsRead_eq hnew]
      exact hchange
  exact hchanges.follow reached.indexed before has followed

end Plan

theorem View.has_of_entries {view : View} {ts : List Tuple}
    (h : view.tuples.entries.map (fun entry => ⟨entry.1, entry.2.env⟩) = ts) : view.Has ts := by
  intro key env
  rw [← h, List.mem_map, View.env?, Option.map_eq_some_iff]
  constructor
  · rintro ⟨bound, hbound, rfl⟩
    exact ⟨(key, bound), OrdMap.get?_eq_some_iff.1 hbound, rfl⟩
  · rintro ⟨⟨_, bound⟩, hmem, heq⟩
    cases heq
    exact ⟨bound, OrdMap.get?_eq_some_iff.2 hmem, rfl⟩

namespace Plan

/-- The pairs of rows of a collection with equal fields. -/
def equalPairs : Plan :=
  ((do
    let a ← Builder.bind "a" (.collection ⟨0, "rows"⟩) none
    let b ← Builder.bind "b" (.collection ⟨0, "rows"⟩) (some .inner)
    let equal ← Builder.call .eq [.ref ⟨a.body, a.path.get "x"⟩, .ref ⟨b.body, b.path.get "x"⟩]
    Builder.on b (.expr equal)
    Builder.selectValue (.ref a) : Builder Unit).run (openQuery {})).2.plan

/-- Every source reads the same rows, of a field `x` by integer keys. -/
def inputsOf (fields : List (Int64 × Int64)) : Inputs where
  rows := fun _ _ => .ok (OrdMap.ofList (fields.map fun field =>
    (.ofScalar (.int field.1), .cons "x" (.int field.2) .nil)))
  subquery := fun _ _ => .ok []

/-- The view of the pairs, evaluated from scratch. -/
def pairsOf (fields : List (Int64 × Int64)) : View :=
  stateAfter ((equalPairs.blueprint default 0).rederive
    { plan := equalPairs, policy := .undefined, inputs := inputsOf fields } []
    (equalPairs.blueprint default 0).emptyView)

/-- The row of a key is written. -/
theorem changesAt_insert {old new : Rows} (key : Key) (row : Row) {keys : List Key}
    (hnew : new = old.insert key row) (hkey : key ∈ keys)
    (hapart : ∀ k ∈ new.keys ++ keys, ∀ k' ∈ new.keys ++ keys, k.toScalar = k'.toScalar → k = k') :
    old.ChangesAt new keys := by
  refine ⟨fun k hk => ?_, hapart⟩
  have hne : k ≠ key := fun heq => hk (heq ▸ hkey)
  rw [hnew, OrdMap.get?_insert_eq, if_neg hne]

/-- A row changes that makes pairs with itself and with another one, which is listed as well. -/
theorem follow_exact_pairs :
    ∃ changes after, (equalPairs.blueprint default 0).follow
        { plan := equalPairs, policy := .undefined, inputs := inputsOf [(1, 7), (2, 8)] }
        [(0, [.ofScalar (.int 1)]), (1, [.ofScalar (.int 1), .ofScalar (.int 2)])]
        (pairsOf [(1, 8), (2, 8)]) = .ok changes after ∧ changes ≠ [] ∧
      ∃ ts', (equalPairs.joinPlan 0).enumerate
        { plan := equalPairs, policy := .undefined, inputs := inputsOf [(1, 7), (2, 8)] } [] none
          = .ok ts' ∧ after.Has ts' := by
  obtain ⟨changes, after, hfollow, hchanges⟩ : ∃ changes after,
      (equalPairs.blueprint default 0).follow
        { plan := equalPairs, policy := .undefined, inputs := inputsOf [(1, 7), (2, 8)] }
        [(0, [.ofScalar (.int 1)]), (1, [.ofScalar (.int 1), .ofScalar (.int 2)])]
        (pairsOf [(1, 8), (2, 8)]) = .ok changes after ∧ changes ≠ [] :=
    ⟨_, _, rfl, by decide +kernel⟩
  obtain ⟨ts, before, hentries⟩ : ∃ ts, (equalPairs.joinPlan 0).enumerate
        { plan := equalPairs, policy := .undefined, inputs := inputsOf [(1, 8), (2, 8)] } [] none
          = .ok ts ∧
      (pairsOf [(1, 8), (2, 8)]).tuples.entries.map (fun entry => ⟨entry.1, entry.2.env⟩) = ts :=
    ⟨_, rfl, rfl⟩
  have reached : (equalPairs.blueprint default 0).Reached (pairsOf [(1, 8), (2, 8)]) :=
    .rederive .empty _ []
  refine ⟨changes, after, hfollow, hchanges, (follow_exact (by decide +kernel) reached before
    (View.has_of_entries hentries) (fun position source hsource => ?_) hfollow).1⟩
  refine ⟨_, _, rfl, rfl, ?_⟩
  match position with
  | 0 =>
      exact changesAt_insert (.ofScalar (.int 1)) (.cons "x" (.int 7) .nil) rfl
        (by decide +kernel) (by decide +kernel)
  | 1 =>
      exact changesAt_insert (.ofScalar (.int 1)) (.cons "x" (.int 7) .nil) rfl
        (by decide +kernel) (by decide +kernel)
  | position + 2 => cases hsource

end Plan

end LiveQuery
