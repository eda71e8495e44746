import LiveQuery.Proofs.Operation
import LiveQuery.Tuple

/-!
# Inner joins

The tuples of a body that is made of inner joins are picked: one row from each source, such
that each condition holds when its source is bound, and in the end `where` does. A condition is
evaluated for all rows picked so far, whether the sources after it have rows or not.

**Results.** `JoinPlan.exists_enumerate_iff` says when the tuples can be derived, and
`mem_enumerate` which they are.
-/

namespace LiveQuery

namespace JoinStep

/-- A step that adds nothing to the rows that join, and reads its source once. -/
structure Inner (step : JoinStep) : Prop where
  left : step.keepsLeft = false
  right : step.keepsRight = false
  shared : step.lateral = false

end JoinStep

namespace JoinPlan

/-- Rows picked from the first of some sources, one from each. -/
inductive Picks : List (Key × Row) → List Rows → Prop
  | stop (sources : List Rows) : Picks [] sources
  | pick {entry : Key × Row} {entries : List (Key × Row)} {rows : Rows} {sources : List Rows}
      (mem : entry ∈ rows.entries) (rest : Picks entries sources) :
      Picks (entry :: entries) (rows :: sources)

/-- The tuple that some entries make. -/
def tupleOf (entries : List (Key × Row)) : Tuple :=
  (entries.foldl PartialTuple.bind {}).complete

section

variable (ev : Evaluator) (body : BodyId) (outer : List Frame)

/-- Whether picked rows join a tuple, one step after another, and `where` holds once all
sources are bound. Nothing is evaluated after a condition that does not hold. -/
def trial (filter : Option Expr) :
    PartialTuple → List JoinStep → List (Key × Row) → Except EvalError Bool
  | t, [], _ => ev.admits (frames body outer t.env) filter
  | _, _ :: _, [] => return true
  | t, step :: steps, entry :: entries => do
      if ← ev.admits (frames body outer (t.bind entry).env) step.condition then
        trial filter (t.bind entry) steps entries
      else return false

/-- The rows of the sources of some steps, from a position on. -/
inductive Supplied (fixed : Option (Nat × Rows)) : Nat → List JoinStep → List Rows → Prop
  | done (position : Nat) : Supplied fixed position [] []
  | step {position : Nat} {step : JoinStep} {steps : List JoinStep} {rows : Rows}
      {sources : List Rows} (first : sharedRows ev outer fixed step position = .ok (some rows))
      (rest : Supplied fixed (position + 1) steps sources) :
      Supplied fixed position (step :: steps) (rows :: sources)

end

section

variable {ev : Evaluator} {body : BodyId} {outer : List Frame}

theorem trial_cons_eq_ok {filter : Option Expr} {t : PartialTuple} {step : JoinStep}
    {steps : List JoinStep} {entry : Key × Row} {entries : List (Key × Row)} {b : Bool} :
    trial ev body outer filter t (step :: steps) (entry :: entries) = .ok b
      ↔ (ev.admits (frames body outer (t.bind entry).env) step.condition = .ok false ∧ b = false) ∨
        (ev.admits (frames body outer (t.bind entry).env) step.condition = .ok true ∧
          trial ev body outer filter (t.bind entry) steps entries = .ok b) := by
  rw [trial, Except.bind_eq_ok]
  constructor
  · rintro ⟨joins, hjoins, h⟩
    cases joins with
    | false => exact .inl ⟨hjoins, (Except.pure_eq_ok.1 h).symm⟩
    | true => exact .inr ⟨hjoins, h⟩
  · rintro (⟨hjoins, rfl⟩ | ⟨hjoins, h⟩)
    · exact ⟨false, hjoins, rfl⟩
    · exact ⟨true, hjoins, h⟩

/-! ## One step -/

theorem matching_eq_ok {step : JoinStep} {t : PartialTuple} {entries joined : List (Key × Row)} :
    matching ev body outer step t entries = .ok joined
      ↔ (∀ entry ∈ entries, ∃ joins,
          ev.admits (frames body outer (t.bind entry).env) step.condition = .ok joins) ∧
        joined = entries.filter fun entry =>
          Except.isTrue (ev.admits (frames body outer (t.bind entry).env) step.condition) := by
  rw [Except.filter_eq_ok (f := matching ev body outer step t) (g := id) rfl (fun _ _ => rfl),
    List.map_id]

theorem runStep_eq_ok {step : JoinStep} (inner : step.Inner) {position : Nat} {rows : Rows}
    {tuples joined : List PartialTuple} :
    runStep ev body outer step position (some rows) tuples = .ok joined
      ↔ (∀ t ∈ tuples, ∀ entry ∈ rows.entries, ∃ joins,
          ev.admits (frames body outer (t.bind entry).env) step.condition = .ok joins) ∧
        joined = tuples.flatMap fun t => (rows.entries.filter fun entry =>
          Except.isTrue (ev.admits (frames body outer (t.bind entry).env) step.condition)).map t.bind := by
  have hextend : ∀ joined, (∃ keys, extendAll ev body outer step (some rows) tuples
      = .ok (joined, keys)) ↔ (∀ t ∈ tuples, ∀ entry ∈ rows.entries, ∃ joins,
          ev.admits (frames body outer (t.bind entry).env) step.condition = .ok joins) ∧
        joined = tuples.flatMap fun t => (rows.entries.filter fun entry =>
          Except.isTrue (ev.admits (frames body outer (t.bind entry).env) step.condition)).map t.bind := by
    induction tuples with
    | nil =>
        intro joined
        constructor
        · rintro ⟨keys, h⟩
          cases h
          exact ⟨fun _ h => absurd h List.not_mem_nil, rfl⟩
        · rintro ⟨_, rfl⟩
          exact ⟨[], rfl⟩
    | cons t rest ih =>
        intro joined
        rw [List.forall_mem_cons, extendAll]
        constructor
        · rintro ⟨keys, h⟩
          obtain ⟨_, hrows, h⟩ := Except.bind_eq_ok.1 h
          obtain rfl := Except.pure_eq_ok.1 hrows
          obtain ⟨entries, hentries, h⟩ := Except.bind_eq_ok.1 h
          obtain ⟨⟨others, otherKeys⟩, hothers, h⟩ := Except.bind_eq_ok.1 h
          obtain ⟨hall, rfl⟩ := matching_eq_ok.1 hentries
          obtain ⟨hrest, rfl⟩ := (ih others).1 ⟨otherKeys, hothers⟩
          cases h
          exact ⟨⟨hall, hrest⟩, by simp [extended, inner.left]⟩
        · rintro ⟨⟨hall, hrest⟩, rfl⟩
          obtain ⟨keys, hothers⟩ := (ih _).2 ⟨hrest, rfl⟩
          have hentries := matching_eq_ok.2 ⟨hall, rfl⟩
          have hextended (entries : List (Key × Row)) :
              extended step t entries = entries.map t.bind := by simp [extended, inner.left]
          exact ⟨_, Except.bind_eq_ok.2 ⟨rows, rfl, Except.bind_eq_ok.2 ⟨_, hentries,
            Except.bind_eq_ok.2 ⟨_, hothers, by rw [hextended]; rfl⟩⟩⟩⟩
  rw [← hextend, runStep]
  simp only [inner.right]
  constructor
  · intro h
    obtain ⟨⟨ts, keys⟩, hextended, h⟩ := Except.bind_eq_ok.1 h
    cases h
    exact ⟨keys, hextended⟩
  · rintro ⟨keys, h⟩
    exact Except.bind_eq_ok.2 ⟨_, h, rfl⟩

/-! ## All steps -/

theorem filtered_eq_ok {filter : Option Expr} {tuples : List PartialTuple} {ts : List Tuple} :
    filtered ev body outer filter tuples = .ok ts
      ↔ (∀ t ∈ tuples, ∃ stays, ev.admits (frames body outer t.env) filter = .ok stays) ∧
        ts = (tuples.filter fun t =>
          Except.isTrue (ev.admits (frames body outer t.env) filter)).map PartialTuple.complete :=
  Except.filter_eq_ok (f := filtered ev body outer filter) rfl fun _ _ => rfl

variable {fixed : Option (Nat × Rows)} {filter : Option Expr}

theorem runSteps_cons {step : JoinStep} {steps : List JoinStep} {position : Nat} {rows : Rows}
    (first : sharedRows ev outer fixed step position = .ok (some rows))
    (tuples : List PartialTuple) :
    (runSteps ev body outer fixed position tuples (step :: steps)
        >>= filtered ev body outer filter)
      = runStep ev body outer step position (some rows) tuples >>= fun joined =>
          runSteps ev body outer fixed (position + 1) joined steps
            >>= filtered ev body outer filter := by
  simp only [runSteps, first, bind_assoc]
  rfl

/-- The tuples after one step: those that a row of its source joins. -/
theorem mem_joined {step : JoinStep} {rows : Rows} {tuples : List PartialTuple}
    {t' : PartialTuple} :
    t' ∈ (tuples.flatMap fun t => (rows.entries.filter fun entry =>
        Except.isTrue (ev.admits (frames body outer (t.bind entry).env) step.condition)).map t.bind)
      ↔ ∃ t ∈ tuples, ∃ entry ∈ rows.entries,
          ev.admits (frames body outer (t.bind entry).env) step.condition = .ok true ∧
            t' = t.bind entry := by
  simp only [List.mem_flatMap, List.mem_map, List.mem_filter, Except.isTrue_iff]
  constructor
  · rintro ⟨t, ht, entry, ⟨hentry, hjoins⟩, rfl⟩
    exact ⟨t, ht, entry, hentry, hjoins, rfl⟩
  · rintro ⟨t, ht, entry, hentry, hjoins, rfl⟩
    exact ⟨t, ht, entry, ⟨hentry, hjoins⟩, rfl⟩

/-- The steps from a position on can be run when all picks of rows can be tried. -/
theorem exists_runSteps_iff {steps : List JoinStep} (inner : ∀ step ∈ steps, step.Inner)
    {position : Nat} {sources : List Rows}
    (supplied : Supplied ev outer fixed position steps sources) (tuples : List PartialTuple) :
    (∃ ts, (runSteps ev body outer fixed position tuples steps
        >>= filtered ev body outer filter) = .ok ts)
      ↔ ∀ t ∈ tuples, ∀ entries, Picks entries sources →
        ∃ b, trial ev body outer filter t steps entries = .ok b := by
  induction supplied generalizing tuples with
  | done position =>
      constructor
      · rintro ⟨ts, h⟩ t ht entries _
        exact (filtered_eq_ok.1 h).1 t ht
      · intro h
        exact ⟨_, filtered_eq_ok.2 ⟨fun t ht => h t ht [] (.stop []), rfl⟩⟩
  | @step position step steps rows sources first rest ih =>
      obtain ⟨innerStep, innerRest⟩ := List.forall_mem_cons.1 inner
      rw [runSteps_cons first]
      constructor
      · rintro ⟨ts, h⟩ t ht entries hpicks
        obtain ⟨joined, hjoined, h⟩ := Except.bind_eq_ok.1 h
        obtain ⟨hall, rfl⟩ := (runStep_eq_ok innerStep).1 hjoined
        cases hpicks with
        | stop => exact ⟨true, rfl⟩
        | @pick entry entries _ _ mem hrest =>
            obtain ⟨joins, hjoins⟩ := hall t ht entry mem
            cases joins with
            | false => exact ⟨false, trial_cons_eq_ok.2 (.inl ⟨hjoins, rfl⟩)⟩
            | true =>
                obtain ⟨b, hb⟩ := (ih innerRest _).1 ⟨ts, h⟩ (t.bind entry)
                  (mem_joined.2 ⟨t, ht, entry, mem, hjoins, rfl⟩) entries hrest
                exact ⟨b, trial_cons_eq_ok.2 (.inr ⟨hjoins, hb⟩)⟩
      · intro h
        have hall : ∀ t ∈ tuples, ∀ entry ∈ rows.entries, ∃ joins,
            ev.admits (frames body outer (t.bind entry).env) step.condition = .ok joins := by
          intro t ht entry hentry
          obtain ⟨b, hb⟩ := h t ht [entry] (.pick hentry (.stop _))
          rcases trial_cons_eq_ok.1 hb with ⟨hjoins, _⟩ | ⟨hjoins, _⟩ <;> exact ⟨_, hjoins⟩
        obtain ⟨ts, hts⟩ := (ih innerRest _).2 fun t' ht' entries hpicks => by
          obtain ⟨t, ht, entry, hentry, hjoins, rfl⟩ := mem_joined.1 ht'
          obtain ⟨b, hb⟩ := h t ht (entry :: entries) (.pick hentry hpicks)
          rcases trial_cons_eq_ok.1 hb with ⟨hfails, _⟩ | ⟨_, htrial⟩
          · cases hjoins.symm.trans hfails
          · exact ⟨b, htrial⟩
        exact ⟨ts, Except.bind_eq_ok.2 ⟨_, (runStep_eq_ok innerStep).2 ⟨hall, rfl⟩, hts⟩⟩

/-- The tuples that the steps from a position on lead to. -/
theorem mem_runSteps {steps : List JoinStep} (inner : ∀ step ∈ steps, step.Inner)
    {position : Nat} {sources : List Rows}
    (supplied : Supplied ev outer fixed position steps sources) {tuples : List PartialTuple}
    {ts : List Tuple} (h : (runSteps ev body outer fixed position tuples steps
      >>= filtered ev body outer filter) = .ok ts) {x : Tuple} :
    x ∈ ts ↔ ∃ t ∈ tuples, ∃ entries, Picks entries sources ∧ entries.length = steps.length ∧
      trial ev body outer filter t steps entries = .ok true ∧
        x = (entries.foldl PartialTuple.bind t).complete := by
  induction supplied generalizing tuples with
  | done position =>
      obtain ⟨_, rfl⟩ := filtered_eq_ok.1 h
      simp only [List.mem_map, List.mem_filter, Except.isTrue_iff]
      constructor
      · rintro ⟨t, ⟨ht, hstays⟩, rfl⟩
        exact ⟨t, ht, [], .stop [], rfl, hstays, rfl⟩
      · rintro ⟨t, ht, entries, _, hlength, hstays, rfl⟩
        obtain rfl := List.eq_nil_of_length_eq_zero hlength
        exact ⟨t, ⟨ht, hstays⟩, rfl⟩
  | @step position step steps rows sources first rest ih =>
      obtain ⟨innerStep, innerRest⟩ := List.forall_mem_cons.1 inner
      rw [runSteps_cons first] at h
      obtain ⟨joined, hjoined, h⟩ := Except.bind_eq_ok.1 h
      obtain ⟨_, rfl⟩ := (runStep_eq_ok innerStep).1 hjoined
      rw [ih innerRest h]
      constructor
      · rintro ⟨t', ht', entries, hpicks, hlength, htrial, rfl⟩
        obtain ⟨t, ht, entry, hentry, hjoins, rfl⟩ := mem_joined.1 ht'
        exact ⟨t, ht, entry :: entries, .pick hentry hpicks, congrArg (· + 1) hlength,
          trial_cons_eq_ok.2 (.inr ⟨hjoins, htrial⟩), rfl⟩
      · rintro ⟨t, ht, entries, hpicks, hlength, htrial, rfl⟩
        cases hpicks with
        | stop => cases hlength
        | @pick entry entries _ _ mem hrest =>
            rcases trial_cons_eq_ok.1 htrial with ⟨_, hb⟩ | ⟨hjoins, htrial⟩
            · cases hb
            · exact ⟨t.bind entry, mem_joined.2 ⟨t, ht, entry, mem, hjoins, rfl⟩, entries, hrest,
                Nat.succ.inj hlength, htrial, rfl⟩

/-- The rows that a step shares are given to it, or read in the frames outside. A lateral step that
is given none shares none. -/
theorem sharedRows_cases {step : JoinStep} {position : Nat} {shared : Option Rows}
    (h : sharedRows ev outer fixed step position = .ok shared) :
    (∃ rows, fixed = some (position, rows) ∧ shared = some rows) ∨
      (step.lateral = true ∧ shared = none) ∨
      ∃ rows, ev.inputs.rows step.source outer = .ok rows ∧ shared = some rows := by
  have hread (h : (if step.lateral then .ok none else some <$> ev.inputs.rows step.source outer)
      = Except.ok shared) : (step.lateral = true ∧ shared = none) ∨
        ∃ rows, ev.inputs.rows step.source outer = .ok rows ∧ shared = some rows := by
    cases hlateral : step.lateral with
    | true =>
        rw [if_pos hlateral] at h
        exact .inl ⟨rfl, (Except.ok.inj h).symm⟩
    | false =>
        rw [if_neg (by rw [hlateral]; exact Bool.false_ne_true)] at h
        obtain ⟨rows, hrows, heq⟩ := Except.map_eq_ok.1 h
        exact .inr ⟨rows, hrows, heq.symm⟩
  unfold sharedRows at h
  split at h
  · split at h
    next hposition =>
      cases h
      exact .inl ⟨_, hposition ▸ rfl, rfl⟩
    · exact .inr (hread h)
  · exact .inr (hread h)

/-- Where no source is lateral, a join that can be run reads the rows of all sources. -/
theorem exists_supplied {steps : List JoinStep} (shared : ∀ step ∈ steps, step.lateral = false)
    {position : Nat} {tuples joined : List PartialTuple}
    (h : runSteps ev body outer fixed position tuples steps = .ok joined) :
    ∃ sources, Supplied ev outer fixed position steps sources := by
  induction steps generalizing position tuples with
  | nil => exact ⟨[], .done position⟩
  | cons step rest ih =>
      obtain ⟨hstep, hrest⟩ := List.forall_mem_cons.1 shared
      obtain ⟨read, hread, h⟩ := Except.bind_eq_ok.1 h
      obtain ⟨between, -, h⟩ := Except.bind_eq_ok.1 h
      obtain ⟨sources, hsources⟩ := ih hrest h
      rcases sharedRows_cases hread with ⟨rows, -, rfl⟩ | ⟨hlateral, -⟩ | ⟨rows, -, rfl⟩
      · exact ⟨rows :: sources, .step hread hsources⟩
      · rw [hstep] at hlateral
        cases hlateral
      · exact ⟨rows :: sources, .step hread hsources⟩

/-- The rows at the position where they are fixed. -/
theorem Supplied.fixed_at {p position : Nat} {rows : Rows} {steps : List JoinStep}
    {sources : List Rows} (h : Supplied ev outer (some (p, rows)) position steps sources) {i : Nat}
    (hi : i < steps.length) (hp : position + i = p) : sources[i]? = some rows := by
  induction h generalizing i with
  | done => cases hi
  | step first _ ih =>
      cases i with
      | zero =>
          obtain rfl : p = _ := hp.symm
          rw [sharedRows, if_pos rfl] at first
          cases first
          rfl
      | succ i => exact ih (Nat.lt_of_succ_lt_succ hi) (by omega)

/-! ## Whole joins -/

variable {joins : JoinPlan}

theorem exists_enumerate_iff (inner : ∀ step ∈ joins.steps, step.Inner) {sources : List Rows}
    (supplied : Supplied ev outer fixed 0 joins.steps sources) :
    (∃ ts, joins.enumerate ev outer fixed = .ok ts)
      ↔ ∀ entries, Picks entries sources →
        ∃ b, trial ev joins.body outer joins.filter {} joins.steps entries = .ok b := by
  rw [enumerate, exists_runSteps_iff inner supplied]
  simp

theorem mem_enumerate (inner : ∀ step ∈ joins.steps, step.Inner) {sources : List Rows}
    (supplied : Supplied ev outer fixed 0 joins.steps sources) {ts : List Tuple}
    (h : joins.enumerate ev outer fixed = .ok ts) {x : Tuple} :
    x ∈ ts ↔ ∃ entries, Picks entries sources ∧ entries.length = joins.steps.length ∧
      trial ev joins.body outer joins.filter {} joins.steps entries = .ok true ∧
        x = tupleOf entries := by
  rw [mem_runSteps inner supplied h]
  simp [tupleOf]

end

end JoinPlan

end LiveQuery
