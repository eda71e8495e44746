import LiveQuery.Proofs.Map
import LiveQuery.Proofs.Thinning

/-!
# Combinations of rows

A join combines the rows of its sources: of each source a row, or none where it is missing. A step
extends each combination by the rows that join it, or by none if it may stay alone, and adds the
rows that joined nothing if these may. It never makes a combination twice, and a lateral source
adds no rows that joined nothing.

**Results.** `JoinPlan.runStep_eq_ok_iff` and `mem_next` for one step, `JoinPlan.runSteps_combine`
for what all steps keep.
-/

namespace LiveQuery

/-- Rows numbered from one, each with its value of `x`. -/
def Rows.numbered (values : List Int64) : Rows :=
  OrdMap.ofList (values.zipIdx.map fun (x, i) =>
    (.ofScalar (.int (.ofNat (i + 1))), .cons "x" (.int x) .nil))

namespace JoinStep

theorem keepsLeft_iff {step : JoinStep} :
    step.keepsLeft = true ↔ step.source.join = some .left ∨ step.source.join = some .full := by
  unfold keepsLeft
  cases step.source.join with
  | none => simp
  | some kind => cases kind <;> simp [JoinKind.keepsLeft]

theorem keepsRight_iff {step : JoinStep} :
    step.keepsRight = true ↔ step.source.join = some .right ∨ step.source.join = some .full := by
  unfold keepsRight
  cases step.source.join with
  | none => simp
  | some kind => cases kind <;> simp [JoinKind.keepsRight]

end JoinStep

/-- A row of each of some sources, in their order, with none for one that is missing. -/
abbrev Combination := List (Option (Key × Row))

namespace Combination

/-- What a row, or a missing one, adds to the key of a tuple. -/
def part : Option (Key × Row) → Scalar
  | some entry => entry.1.toScalar
  | none => .null

/-- What is bound to a source of which there is a row, or none. -/
def value : Option (Key × Row) → Scalar
  | some entry => .record entry.2
  | none => .undefined

def env (c : Combination) : List Scalar :=
  c.map value

/-- The tuple of a combination: of each row its key as one scalar and its fields, of a missing one
null and nothing. -/
def tuple (c : Combination) : Tuple :=
  ⟨⟨c.map part⟩, c.env⟩

def toPartial (c : Combination) : PartialTuple :=
  ⟨c.map (Option.map Prod.fst), c.env⟩

/-- The combination with a row of one more source, or none. -/
def add (c : Combination) (x : Option (Key × Row)) : Combination :=
  c ++ [x]

/-- A row of a source while all sources before it are missing. -/
def lone (position : Nat) (entry : Key × Row) : Combination :=
  add (List.replicate position none) (some entry)

variable {c c' : Combination} {x x' : Option (Key × Row)} {entry entry' : Key × Row}

theorem add_inj : c.add x = c'.add x' ↔ c = c' ∧ x = x' :=
  ⟨fun h => List.append_singleton_inj.1 h, fun ⟨hc, hx⟩ => hc ▸ hx ▸ rfl⟩

theorem parts_add (c : Combination) (x : Option (Key × Row)) :
    (c.add x).map part = c.map part ++ [part x] :=
  List.map_append

theorem toPartial_bind (c : Combination) (entry : Key × Row) :
    c.toPartial.bind entry = (c.add (some entry)).toPartial := by
  simp [toPartial, PartialTuple.bind, add, env, value]

theorem toPartial_skip (c : Combination) : c.toPartial.skip = (c.add none).toPartial := by
  simp [toPartial, PartialTuple.skip, add, env, value]

theorem missing_bind (position : Nat) (entry : Key × Row) :
    (PartialTuple.missing position).bind entry = (lone position entry).toPartial := by
  simp [PartialTuple.missing, PartialTuple.bind, lone, add, toPartial, env, value]

theorem complete_toPartial (c : Combination) : c.toPartial.complete = c.tuple := by
  simp only [PartialTuple.complete, toPartial, tuple, Key.composite, List.map_map]
  refine congrArg (fun parts => Tuple.mk ⟨parts⟩ c.env) (List.map_congr_left fun x _ => ?_)
  cases x <;> rfl

end Combination

namespace JoinPlan

open Combination

section

variable (ev : Evaluator) (body : BodyId) (outer : List Frame)

/-- Whether the last row of a combination joins the ones before it. -/
def Joins (step : JoinStep) (c : Combination) : Prop :=
  ev.admits (frames body outer c.env) step.condition = .ok true

/-- The rows that join a combination. -/
def joining (step : JoinStep) (shared : Option Rows) (c : Combination) : List (Key × Row) :=
  ((rowsFor ev body outer step shared c.toPartial).toOption.getD OrdMap.empty).entries.filter
    fun entry =>
      Except.isTrue (ev.admits (frames body outer (c.add (some entry)).env) step.condition)

/-- The rows that may join a combination can be read, and held against the condition of the join. -/
def Joinable (step : JoinStep) (shared : Option Rows) (c : Combination) : Prop :=
  ∃ rows, rowsFor ev body outer step shared c.toPartial = .ok rows ∧ ∀ entry ∈ rows.entries,
    ∃ joins, ev.admits (frames body outer (c.add (some entry)).env) step.condition = .ok joins

/-- What a combination becomes in a step. -/
def extensions (step : JoinStep) (shared : Option Rows) (c : Combination) : List Combination :=
  if (joining ev body outer step shared c).isEmpty && step.keepsLeft then [c.add none]
  else (joining ev body outer step shared c).map fun entry => c.add (some entry)

/-- The rows that are kept although they joined no combination. -/
def unjoined (step : JoinStep) (shared : Option Rows) (cs : List Combination) :
    List (Key × Row) :=
  match shared, step.keepsRight with
  | some rows, true => rows.entries.filter fun entry =>
      cs.all fun c => !(joining ev body outer step shared c).contains entry
  | _, _ => []

/-- What the combinations become in a step. -/
def next (step : JoinStep) (position : Nat) (shared : Option Rows) (cs : List Combination) :
    List Combination :=
  cs.flatMap (extensions ev body outer step shared)
    ++ (unjoined ev body outer step shared cs).map (lone position)

end

variable {ev : Evaluator} {body : BodyId} {outer : List Frame} {step : JoinStep}
  {shared : Option Rows} {position : Nat} {c : Combination} {cs : List Combination}
  {entry : Key × Row}

/-! ## One step -/

theorem joining_of_rows {rows : Rows}
    (hrows : rowsFor ev body outer step shared c.toPartial = .ok rows) :
    joining ev body outer step shared c = rows.entries.filter fun entry =>
      Except.isTrue (ev.admits (frames body outer (c.add (some entry)).env) step.condition) := by
  rw [joining, hrows]
  rfl

theorem mem_joining {rows : Rows}
    (hrows : rowsFor ev body outer step shared c.toPartial = .ok rows) :
    entry ∈ joining ev body outer step shared c ↔
      entry ∈ rows.entries ∧ Joins ev body outer step (c.add (some entry)) := by
  rw [joining_of_rows hrows, List.mem_filter, Except.isTrue_iff, Joins]

theorem matching_toPartial {entries joined : List (Key × Row)} :
    matching ev body outer step c.toPartial entries = .ok joined ↔
      (∀ entry ∈ entries, ∃ joins,
        ev.admits (frames body outer (c.add (some entry)).env) step.condition = .ok joins) ∧
      joined = entries.filter fun entry =>
        Except.isTrue (ev.admits (frames body outer (c.add (some entry)).env) step.condition) := by
  simp only [matching_eq_ok, toPartial_bind]
  rfl

theorem extended_toPartial (c : Combination) (entries : List (Key × Row)) :
    extended step c.toPartial entries
      = (if entries.isEmpty && step.keepsLeft then [c.add none]
          else entries.map fun entry => c.add (some entry)).map toPartial := by
  unfold extended
  split
  · exact congrArg (fun t => [t]) (toPartial_skip c)
  · rw [List.map_map]
    exact List.map_congr_left fun entry _ => toPartial_bind c entry

theorem extendAll_eq_ok_iff {joined : List PartialTuple} {keys : List Key} :
    extendAll ev body outer step shared (cs.map toPartial) = .ok (joined, keys) ↔
      (∀ c ∈ cs, Joinable ev body outer step shared c) ∧
      joined = (cs.flatMap (extensions ev body outer step shared)).map toPartial ∧
      keys = cs.flatMap fun c => (joining ev body outer step shared c).map Prod.fst := by
  induction cs generalizing joined keys with
  | nil =>
      constructor
      · intro h
        cases h
        exact ⟨fun _ h => absurd h List.not_mem_nil, rfl, rfl⟩
      · rintro ⟨-, rfl, rfl⟩
        rfl
  | cons c rest ih =>
      rw [List.map_cons, extendAll_cons, List.forall_mem_cons, List.flatMap_cons, List.flatMap_cons,
        List.map_append]
      constructor
      · intro h
        obtain ⟨rows, hrows, h⟩ := Except.bind_eq_ok.1 h
        obtain ⟨entries, hentries, h⟩ := Except.bind_eq_ok.1 h
        obtain ⟨⟨others, otherKeys⟩, hothers, h⟩ := Except.bind_eq_ok.1 h
        obtain ⟨hall, hfound⟩ := matching_toPartial.1 hentries
        obtain rfl := hfound.trans (joining_of_rows hrows).symm
        obtain ⟨hrest, rfl, rfl⟩ := ih.1 hothers
        cases h
        exact ⟨⟨⟨rows, hrows, hall⟩, hrest⟩, congrArg (· ++ _) (extended_toPartial c _), rfl⟩
      · rintro ⟨⟨⟨rows, hrows, hall⟩, hrest⟩, rfl, rfl⟩
        have hentries := matching_toPartial.2 ⟨hall, rfl⟩
        rw [← joining_of_rows hrows] at hentries
        refine Except.bind_eq_ok.2 ⟨rows, hrows, Except.bind_eq_ok.2 ⟨_, hentries,
          Except.bind_eq_ok.2 ⟨_, ih.2 ⟨hrest, rfl, rfl⟩, ?_⟩⟩⟩
        rw [extended_toPartial]
        rfl

/-- A row has joined just if its key is among those that have. -/
theorem contains_keys {rows : Rows} (hentry : entry ∈ rows.entries) :
    (OrdSet.ofList (cs.flatMap fun c =>
        (joining ev body outer step (some rows) c).map Prod.fst)).contains entry.1
      = !cs.all fun c => !(joining ev body outer step (some rows) c).contains entry := by
  have hjoining (c : Combination) :
      entry.1 ∈ (joining ev body outer step (some rows) c).map Prod.fst ↔
        entry ∈ joining ev body outer step (some rows) c := by
    refine ⟨fun h => ?_, fun h => List.mem_map_of_mem h⟩
    obtain ⟨entry', hentry', hkey⟩ := List.mem_map.1 h
    have hrows : entry' ∈ rows.entries := ((mem_joining (c := c) rfl).1 hentry').1
    obtain rfl := List.inj_on_of_nodup_map rows.nodup_keys hrows hentry hkey
    exact hentry'
  refine Bool.eq_iff_iff.2 ?_
  rw [OrdMap.contains_iff_mem_keys, OrdSet.mem_keys_ofList, List.mem_flatMap]
  simp [hjoining]

theorem unmatched_toPartial (rows : Rows) :
    unmatched position rows
        (cs.flatMap fun c => (joining ev body outer step (some rows) c).map Prod.fst)
      = ((rows.entries.filter fun entry =>
          cs.all fun c => !(joining ev body outer step (some rows) c).contains entry).map
            (lone position)).map toPartial := by
  have hunmatched (entries : List (Key × Row)) :
      entries.map (PartialTuple.missing position).bind
        = (entries.map (lone position)).map toPartial := by
    rw [List.map_map]
    exact List.map_congr_left fun entry _ => missing_bind position entry
  rw [unmatched, hunmatched]
  refine congrArg (fun entries => (List.map (lone position) entries).map toPartial) ?_
  refine List.filter_congr fun entry hentry => ?_
  rw [contains_keys hentry, Bool.not_not]

/-- A step of the join makes of some combinations the next ones. -/
theorem runStep_eq_ok_iff {joined : List PartialTuple} :
    runStep ev body outer step position shared (cs.map toPartial) = .ok joined ↔
      (∀ c ∈ cs, Joinable ev body outer step shared c) ∧
      joined = (next ev body outer step position shared cs).map toPartial := by
  have hkept : ∀ extended : List PartialTuple,
      (match shared, step.keepsRight with
        | some rows, true => pure (extended ++ unmatched position rows
            (cs.flatMap fun c => (joining ev body outer step shared c).map Prod.fst))
        | _, _ => pure extended : Except EvalError (List PartialTuple))
        = .ok (extended ++ ((unjoined ev body outer step shared cs).map (lone position)).map
            toPartial) := by
    intro extended
    unfold unjoined
    cases shared with
    | none => exact congrArg Except.ok (List.append_nil _).symm
    | some rows =>
        cases step.keepsRight with
        | false => exact congrArg Except.ok (List.append_nil _).symm
        | true => exact congrArg (fun ts => Except.ok (extended ++ ts)) (unmatched_toPartial rows)
  rw [runStep, next, List.map_append]
  constructor
  · intro h
    obtain ⟨⟨extended, keys⟩, hextended, h⟩ := Except.bind_eq_ok.1 h
    obtain ⟨hall, rfl, rfl⟩ := extendAll_eq_ok_iff.1 hextended
    exact ⟨hall, (Except.ok.inj ((hkept _).symm.trans h)).symm⟩
  · rintro ⟨hall, rfl⟩
    exact Except.bind_eq_ok.2 ⟨_, extendAll_eq_ok_iff.2 ⟨hall, rfl, rfl⟩, hkept _⟩

theorem mem_extensions {c' : Combination} :
    c' ∈ extensions ev body outer step shared c ↔
      (∃ entry ∈ joining ev body outer step shared c, c' = c.add (some entry)) ∨
      (step.keepsLeft = true ∧ joining ev body outer step shared c = [] ∧ c' = c.add none) := by
  unfold extensions
  cases hjoining : joining ev body outer step shared c with
  | nil =>
      cases step.keepsLeft <;> simp
  | cons entry rest =>
      rw [List.isEmpty_cons, Bool.false_and, if_neg Bool.false_ne_true, List.mem_map]
      constructor
      · rintro ⟨entry', hentry', rfl⟩
        exact .inl ⟨entry', hentry', rfl⟩
      · rintro (⟨entry', hentry', rfl⟩ | ⟨_, hnone, _⟩)
        · exact ⟨entry', hentry', rfl⟩
        · cases hnone

theorem mem_unjoined :
    entry ∈ unjoined ev body outer step shared cs ↔
      step.keepsRight = true ∧ (∃ rows, shared = some rows ∧ entry ∈ rows.entries) ∧
        ∀ c ∈ cs, entry ∉ joining ev body outer step shared c := by
  unfold unjoined
  cases shared with
  | none => simp
  | some rows => cases step.keepsRight <;> simp

theorem mem_next {c' : Combination} :
    c' ∈ next ev body outer step position shared cs ↔
      (∃ c ∈ cs, ∃ entry ∈ joining ev body outer step shared c, c' = c.add (some entry)) ∨
      (step.keepsLeft = true ∧
        ∃ c ∈ cs, joining ev body outer step shared c = [] ∧ c' = c.add none) ∨
      ∃ entry ∈ unjoined ev body outer step shared cs, c' = lone position entry := by
  simp only [next, List.mem_append, List.mem_flatMap, mem_extensions, List.mem_map]
  constructor
  · rintro (⟨c, hc, hrow | ⟨hleft, hnone, rfl⟩⟩ | ⟨entry, hentry, rfl⟩)
    · exact .inl ⟨c, hc, hrow⟩
    · exact .inr (.inl ⟨hleft, c, hc, hnone, rfl⟩)
    · exact .inr (.inr ⟨entry, hentry, rfl⟩)
  · rintro (⟨c, hc, hrow⟩ | ⟨hleft, c, hc, hnone, rfl⟩ | ⟨entry, hentry, rfl⟩)
    · exact .inl ⟨c, hc, .inl hrow⟩
    · exact .inl ⟨c, hc, .inr ⟨hleft, hnone, rfl⟩⟩
    · exact .inr ⟨entry, hentry, rfl⟩

theorem nodup_joining (c : Combination) : (joining ev body outer step shared c).Nodup :=
  ((OrdMap.nodup_keys _).of_map _).filter _

/-- No combination is made twice. -/
theorem nodup_next (hcs : cs.Nodup) : (next ev body outer step position shared cs).Nodup := by
  rw [next, List.nodup_append']
  refine ⟨List.nodup_flatMap.2 ⟨fun c _ => ?_, ?_⟩, ?_, ?_⟩
  · -- one combination is extended by different rows
    unfold extensions
    split
    · exact List.nodup_singleton _
    · exact (nodup_joining c).map fun entry entry' h => Option.some.inj (add_inj.1 h).2
  · -- different ones stay different
    refine hcs.imp fun {c c'} hne => List.disjoint_left.2 fun x hx hx' => ?_
    have hfirst {c : Combination} (hx : x ∈ extensions ev body outer step shared c) :
        ∃ y, x = c.add y := by
      rcases mem_extensions.1 hx with ⟨entry, _, h⟩ | ⟨_, _, h⟩ <;> exact ⟨_, h⟩
    obtain ⟨y, rfl⟩ := hfirst hx
    obtain ⟨y', h⟩ := hfirst hx'
    exact hne (add_inj.1 h).1
  · refine List.Nodup.map (fun entry entry' h => Option.some.inj (add_inj.1 h).2) ?_
    unfold unjoined
    split
    · exact (List.Nodup.of_map _ (OrdMap.nodup_keys _)).filter _
    · exact .nil
  · -- a row that joined nothing extends no combination
    rw [List.disjoint_left]
    intro x hx hx'
    obtain ⟨c, hc, hx⟩ := List.mem_flatMap.1 hx
    obtain ⟨entry, hentry, rfl⟩ := List.mem_map.1 hx'
    rcases mem_extensions.1 hx with ⟨entry', hentry', h⟩ | ⟨_, _, h⟩
    · obtain rfl := Option.some.inj (add_inj.1 h).2
      exact (mem_unjoined.1 hentry).2.2 c hc hentry'
    · cases (add_inj.1 h).2

/-! ## All steps -/

/-- What each step of a join keeps, all of them keep. -/
theorem runSteps_combine {fixed : Option (Nat × Rows)} {steps : List JoinStep}
    {P : Nat → List Combination → Prop}
    (hstep : ∀ i step shared, steps[i]? = some step →
      sharedRows ev outer fixed step (position + i) = .ok shared →
        ∀ cs, P (position + i) cs → (∀ c ∈ cs, Joinable ev body outer step shared c) →
          P (position + i + 1) (next ev body outer step (position + i) shared cs))
    (hcs : P position cs) {joined : List PartialTuple}
    (hrun : runSteps ev body outer fixed position (cs.map toPartial) steps = .ok joined) :
    ∃ cs', joined = cs'.map toPartial ∧ P (position + steps.length) cs' := by
  induction steps generalizing position cs with
  | nil =>
      cases hrun
      exact ⟨cs, rfl, hcs⟩
  | cons step steps ih =>
      obtain ⟨shared, hshared, hrun⟩ := Except.bind_eq_ok.1 hrun
      obtain ⟨tuples, htuples, hrun⟩ := Except.bind_eq_ok.1 hrun
      obtain ⟨hall, rfl⟩ := runStep_eq_ok_iff.1 htuples
      rw [List.length_cons, Nat.add_comm steps.length 1, ← Nat.add_assoc]
      refine ih (fun i step' shared' hi => ?_) (hstep 0 step shared rfl hshared cs hcs hall) hrun
      rw [Nat.add_assoc position 1 i, Nat.add_comm 1 i]
      exact hstep (i + 1) step' shared' hi

theorem filtered_toPartial {filter : Option Expr} {ts : List Tuple} :
    filtered ev body outer filter (cs.map toPartial) = .ok ts ↔
      (∀ c ∈ cs, ∃ stays, ev.admits (frames body outer c.env) filter = .ok stays) ∧
        ts = (cs.filter fun c =>
          Except.isTrue (ev.admits (frames body outer c.env) filter)).map tuple := by
  rw [filtered_eq_ok, List.forall_mem_map, List.filter_map, List.map_map]
  refine and_congr_right fun _ => Eq.congr_right ?_
  exact List.map_congr_left fun c _ => complete_toPartial c

end JoinPlan

end LiveQuery
