import Mathlib.Data.List.Induction
import LiveQuery.Proofs.Engine.Convergence
import LiveQuery.Proofs.Join.Combination
import LiveQuery.Proofs.Plan.Naming

/-!
# Keys of tuples

The key of a tuple has a part for each source: the key of its row as one scalar, and null where the
row is missing. Where the keys of the rows of each source stay apart as scalars, so do those of
combinations, but for one case. A full join keeps a combination that no row joins and a row that
joins no combination, and both get the same key if all keys in them are null.

**Results.** `Combination.Meet.parts_eq`, and `JoinPlan.enumerate_distinct`: no others have equal
keys. `Key.eq_of_toScalar`: keys of equal length stay apart.
-/

namespace LiveQuery

/-! ## Keys as scalars -/

namespace Row

theorem get?_put (row : Row) (name : String) (value : Scalar) (field : String) :
    (row.put name value).get? field = if name = field then some value else row.get? field := by
  match row with
  | .nil => rfl
  | .cons other old rest =>
      unfold put
      split
      next => rfl
      next heq =>
        obtain rfl := Std.LawfulEqOrd.eq_of_compare heq
        by_cases h : name = field <;> simp [get?, h]
      next hgt =>
        have hne : name ≠ other := by
          rintro rfl
          simp [Std.ReflOrd.compare_self] at hgt
        rw [get?, get?, get?_put rest]
        by_cases h : other = field
        · subst h
          simp [hne]
        · simp [h]

theorem erase_of_get?_eq_none {row : Row} {field : String} (h : row.get? field = none) :
    row.erase field = row := by
  match row with
  | .nil => rfl
  | .cons name value rest =>
      rw [get?] at h
      split at h
      · cases h
      next hne => rw [erase, if_neg hne, erase_of_get?_eq_none h]

/-- A value is found at its position, unless it is missing. -/
theorem get?_ofPositions (values : List Scalar) (i : Nat) :
    (ofPositions values).get? (toString i) = values[i]?.filter (· != .undefined) := by
  induction values using List.reverseRecOn generalizing i with
  | nil => rfl
  | append_singleton values value ih =>
      have hlast : ofPositions (values ++ [value])
          = (ofPositions values).insert (toString values.length) value := by
        simp [ofPositions, ofList, insertAll, List.mapIdx_append]
      have hnone : (ofPositions values).get? (toString values.length) = none := by
        rw [ih, List.getElem?_eq_none (Nat.le_refl _)]
        rfl
      have hvalue : (values ++ [value])[values.length]? = some value := by simp
      rw [hlast]
      by_cases hi : i = values.length
      · subst hi
        rw [hvalue]
        cases value with
        | undefined => exact (congrArg (get? · _) (erase_of_get?_eq_none hnone)).trans hnone
        | _ => exact (get?_put ..).trans (if_pos rfl)
      · have hname : ¬toString values.length = toString i := fun h => hi (eq_of_toString h).symm
        have hbefore : (values ++ [value])[i]?.filter (· != .undefined)
            = (ofPositions values).get? (toString i) := by
          rw [ih, List.getElem?_append]
          split
          · rfl
          · rw [List.getElem?_eq_none (l := values) (by omega), List.getElem?_eq_none (by simp; omega)]
        rw [hbefore]
        cases value with
        | undefined => exact congrArg (get? · _) (erase_of_get?_eq_none hnone)
        | _ => exact (get?_put ..).trans (if_neg hname)

theorem eq_of_ofPositions {values values' : List Scalar} (hlength : values.length = values'.length)
    (h : ofPositions values = ofPositions values') : values = values' := by
  refine List.ext_getElem hlength fun i hi hi' => ?_
  have hget := get?_ofPositions values' i
  rw [← h, get?_ofPositions, List.getElem?_eq_getElem hi, List.getElem?_eq_getElem hi'] at hget
  by_cases hx : values[i] = .undefined <;> by_cases hx' : values'[i] = .undefined <;>
    simp_all [Option.filter]

end Row

/-- Keys with equally many parts stay apart as scalars. -/
theorem Key.eq_of_toScalar {k k' : Key} (hlength : k.parts.length = k'.parts.length)
    (h : k.toScalar = k'.toScalar) : k = k' := by
  obtain ⟨parts⟩ := k
  obtain ⟨parts'⟩ := k'
  match parts, parts', hlength with
  | [], [], _ => rfl
  | [value], [value'], _ => exact congrArg Key.ofScalar h
  | x :: y :: rest, x' :: y' :: rest', hlength =>
      exact congrArg Key.mk (Row.eq_of_ofPositions hlength (Scalar.record.inj h))

/-- Rows whose keys have equally many parts are told apart where these are parts of other keys. -/
theorem Rows.apart_of_length {rows : Rows} {n : Nat} (h : ∀ k ∈ rows.keys, k.parts.length = n) :
    rows.Apart :=
  fun k hk k' hk' => Key.eq_of_toScalar ((h k hk).trans (h k' hk').symm)

theorem Rows.Apart.eq_of_part {rows : Rows} (h : rows.Apart) {entry entry' : Key × Row}
    (hentry : entry ∈ rows.entries) (hentry' : entry' ∈ rows.entries)
    (hpart : entry.1.toScalar = entry'.1.toScalar) : entry = entry' :=
  List.inj_on_of_nodup_map rows.nodup_keys hentry hentry'
    (h _ (List.mem_map_of_mem hentry) _ (List.mem_map_of_mem hentry') hpart)

/-! ## Combinations with equal keys -/

namespace Combination

/-- Two combinations that a full join keeps and that get the same key: one lacks a source of which
the other has a row whose key is null. That row joined nothing, so the other lacks all sources before
it; the rows that the one has of these have null for a key as well. After it their keys agree. -/
inductive Meet (steps : List JoinStep) : Combination → Combination → Prop
  | intro {before rest rest' : Combination} {step : JoinStep} {entry : Key × Row}
      (source : steps[before.length]? = some step) (full : step.source.join = some .full)
      (nullBefore : ∀ x ∈ before, part x = .null) (null : entry.1.toScalar = .null)
      (agree : rest.map part = rest'.map part) :
      Meet steps (before ++ none :: rest)
        (List.replicate before.length none ++ some entry :: rest')

variable {steps : List JoinStep} {c c' : Combination} {x x' : Option (Key × Row)}

theorem parts_missing (n : Nat) :
    (List.replicate n (none : Option (Key × Row))).map part = List.replicate n .null :=
  List.map_replicate

/-- What has the key of missing rows has null keys only. -/
theorem part_eq_null {n : Nat} (h : c.map part = (List.replicate n none).map part) :
    ∀ x ∈ c, part x = .null := by
  intro x hx
  rw [parts_missing] at h
  exact List.eq_of_mem_replicate (h ▸ List.mem_map_of_mem hx)

/-- Combinations that meet have the same key. -/
theorem Meet.parts_eq (h : Meet steps c c') : c.map part = c'.map part := by
  obtain ⟨-, -, nullBefore, null, agree⟩ := h
  simp only [List.map_append, List.map_cons, parts_missing, agree, part, null]
  refine congrArg (· ++ _) (List.eq_replicate_iff.2 ⟨List.length_map _, fun value hvalue => ?_⟩)
  obtain ⟨x, hx, rfl⟩ := List.mem_map.1 hvalue
  exact nullBefore x hx

theorem Meet.ne (h : Meet steps c c') : c ≠ c' := by
  cases h with
  | intro =>
      intro heq
      cases (List.append_inj heq List.length_replicate.symm).2

theorem Meet.add (h : Meet steps c c') (hpart : part x = part x') :
    Meet steps (c.add x) (c'.add x') := by
  cases h with
  | @intro before rest rest' step entry source full nullBefore null agree =>
      rw [Combination.add, Combination.add, List.append_assoc, List.append_assoc]
      refine .intro source full nullBefore null ?_
      change (rest.add x).map part = (rest'.add x').map part
      rw [parts_add, parts_add, agree, hpart]

theorem getElem?_add (b : Combination) (x : Option (Key × Row)) (i : Nat) :
    (b.add x)[i]? = if i = b.length then some x else b[i]? := by
  rw [Combination.add, List.getElem?_append]
  split
  next hi => rw [if_neg (Nat.ne_of_lt hi)]
  next hi =>
    rw [List.getElem?_eq_none (Nat.le_of_not_lt hi)]
    by_cases heq : i = b.length
    · simp [heq]
    · rw [if_neg heq, List.getElem?_eq_none (by simp only [List.length_singleton]; omega)]

theorem key_tuple (c : Combination) : c.tuple.key = ⟨c.map part⟩ :=
  rfl

end Combination

theorem JoinStep.full_of_keeps {step : JoinStep} (hleft : step.keepsLeft = true)
    (hright : step.keepsRight = true) : step.source.join = some .full := by
  rcases JoinStep.keepsLeft_iff.1 hleft with hkind | hkind
  · rcases JoinStep.keepsRight_iff.1 hright with hkind' | hkind' <;>
      cases hkind.symm.trans hkind'
  · exact hkind

namespace JoinPlan

open Combination

section

variable (ev : Evaluator) (fixed : Option (Nat × Rows)) (steps : List JoinStep)

/-- A step may read rows at its position: it is given them, or they are those of its source in some
frames. -/
def Reads (position : Nat) (rows : Rows) : Prop :=
  fixed = some (position, rows) ∨ ∃ step frames, steps[position]? = some step ∧
    ev.inputs.rows step.source frames = .ok rows

/-- Combinations of rows of the first sources. Two of them that have the same key meet. -/
structure Distinct (position : Nat) (cs : List Combination) : Prop where
  nodup : cs.Nodup
  length : ∀ c ∈ cs, c.length = position
  drawn : ∀ b ∈ cs, ∀ i entry, b[i]? = some (some entry) →
    ∃ rows, Reads ev fixed steps i rows ∧ entry ∈ rows.entries
  meets : ∀ c ∈ cs, ∀ c' ∈ cs, c.map part = c'.map part →
    c = c' ∨ Meet steps c c' ∨ Meet steps c' c

end

variable {ev : Evaluator} {body : BodyId} {outer : List Frame} {fixed : Option (Nat × Rows)}
  {steps : List JoinStep} {step : JoinStep} {position : Nat} {shared : Option Rows}
  {cs : List Combination} {c : Combination}

theorem reads_of_shared (hstep : steps[position]? = some step) {rows : Rows}
    (hshared : sharedRows ev outer fixed step position = .ok (some rows)) :
    Reads ev fixed steps position rows := by
  rcases sharedRows_cases hshared with ⟨_, hfixed, heq⟩ | ⟨-, heq⟩ | ⟨_, hrows, heq⟩
  · cases heq
    exact .inl hfixed
  · cases heq
  · cases heq
    exact .inr ⟨step, outer, hstep, hrows⟩

/-- The rows that may join a combination are read at the position of the step. -/
theorem reads_of_rowsFor (hstep : steps[position]? = some step)
    (hshared : sharedRows ev outer fixed step position = .ok shared) {t : PartialTuple} {rows : Rows}
    (hrows : rowsFor ev body outer step shared t = .ok rows) :
    Reads ev fixed steps position rows := by
  cases shared with
  | none => exact .inr ⟨step, _, hstep, hrows⟩
  | some rows' =>
      cases hrows
      exact reads_of_shared hstep hshared

/-- After a step a combination extends one from before it, or is a row that joined nothing. -/
theorem cases_of_mem_next {c' : Combination}
    (hc' : c' ∈ next ev body outer step position shared cs) :
    (∃ c ∈ cs, ∃ x, c' = c.add x ∧ c' ∈ extensions ev body outer step shared c) ∨
      ∃ entry ∈ unjoined ev body outer step shared cs, c' = lone position entry := by
  rcases List.mem_append.1 hc' with hc' | hc'
  · obtain ⟨c, hc, hext⟩ := List.mem_flatMap.1 hc'
    rcases mem_extensions.1 hext with ⟨entry, -, rfl⟩ | ⟨-, -, rfl⟩
    · exact .inl ⟨c, hc, _, rfl, hext⟩
    · exact .inl ⟨c, hc, _, rfl, hext⟩
  · obtain ⟨entry, hentry, rfl⟩ := List.mem_map.1 hc'
    exact .inr ⟨entry, hentry, rfl⟩

theorem length_of_mem_next {c' : Combination}
    (hc' : c' ∈ next ev body outer step position shared cs) (hcs : ∀ c ∈ cs, c.length = position) :
    c'.length = position + 1 := by
  rcases cases_of_mem_next hc' with ⟨c, hc, x, rfl, -⟩ | ⟨entry, -, rfl⟩
  · rw [Combination.add, List.length_append, hcs c hc, List.length_singleton]
  · rw [lone, Combination.add, List.length_append, List.length_replicate, List.length_singleton]

/-- The key of a tuple has a part for each source. -/
theorem length_enumerate {joins : JoinPlan} {ts : List Tuple}
    (h : joins.enumerate ev outer fixed = .ok ts) :
    ∀ t ∈ ts, t.key.parts.length = joins.steps.length := by
  have hstart : ∀ c ∈ ([[]] : List Combination), c.length = 0 := by simp
  obtain ⟨joined, hjoined, hts⟩ := Except.bind_eq_ok.1 h
  obtain ⟨cs, rfl, hcs⟩ := runSteps_combine (P := fun position cs => ∀ c ∈ cs, c.length = position)
    (fun _ _ _ _ _ cs hcs _ c' hc' => length_of_mem_next hc' hcs) hstart hjoined
  obtain ⟨-, rfl⟩ := filtered_toPartial.1 hts
  intro t ht
  obtain ⟨c, hc, rfl⟩ := List.mem_map.1 ht
  rw [key_tuple, List.length_map, hcs c (List.mem_of_mem_filter hc), Nat.zero_add]

theorem Distinct.start : Distinct ev fixed steps 0 [[]] where
  nodup := List.nodup_singleton _
  length c hc := by rw [List.mem_singleton.1 hc]; rfl
  drawn c hc i entry hentry := by
    rw [List.mem_singleton.1 hc] at hentry
    cases hentry
  meets c hc c' hc' _ := .inl ((List.mem_singleton.1 hc).trans (List.mem_singleton.1 hc').symm)

theorem Distinct.sublist {cs' : List Combination} (h : Distinct ev fixed steps position cs)
    (hcs' : cs'.Sublist cs) : Distinct ev fixed steps position cs' where
  nodup := h.nodup.sublist hcs'
  length c hc := h.length c (hcs'.subset hc)
  drawn c hc := h.drawn c (hcs'.subset hc)
  meets c hc c' hc' := h.meets c (hcs'.subset hc) c' (hcs'.subset hc')

section

variable (hstep : steps[position]? = some step)
  (hshared : sharedRows ev outer fixed step position = .ok shared)
  (apart : ∀ rows, Reads ev fixed steps position rows → rows.Apart)

include hstep hshared apart

/-- One combination is extended by rows with different keys. -/
theorem eq_of_extensions (hjoinable : Joinable ev body outer step shared c)
    {x x' : Option (Key × Row)} (hx : c.add x ∈ extensions ev body outer step shared c)
    (hx' : c.add x' ∈ extensions ev body outer step shared c) (hpart : part x = part x') :
    x = x' := by
  obtain ⟨rows, hrows, -⟩ := hjoinable
  have hapart := apart rows (reads_of_rowsFor hstep hshared hrows)
  rcases mem_extensions.1 hx with ⟨entry, hentry, h⟩ | ⟨-, hnone, h⟩ <;>
    rcases mem_extensions.1 hx' with ⟨entry', hentry', h'⟩ | ⟨-, hnone', h'⟩ <;>
    obtain rfl := (add_inj.1 h).2 <;> obtain rfl := (add_inj.1 h').2
  · exact congrArg some (hapart.eq_of_part ((mem_joining hrows).1 hentry).1
      ((mem_joining hrows).1 hentry').1 hpart)
  · rw [hnone'] at hentry
    cases hentry
  · rw [hnone] at hentry'
    cases hentry'
  · rfl

/-- An extended combination and a row that joined nothing have different keys, or meet. -/
theorem meet_of_unjoined (hc : c ∈ cs) (hlength : c.length = position)
    {x : Option (Key × Row)} (hx : c.add x ∈ extensions ev body outer step shared c)
    {entry : Key × Row} (hentry : entry ∈ unjoined ev body outer step shared cs)
    (hparts : (c.add x).map part = (lone position entry).map part) :
    Meet steps (c.add x) (lone position entry) := by
  rw [lone, parts_add, parts_add] at hparts
  obtain ⟨hbefore, hlast⟩ := List.append_singleton_inj.1 hparts
  obtain ⟨hright, ⟨rows, rfl, hrow⟩, hlonely⟩ := mem_unjoined.1 hentry
  rcases mem_extensions.1 hx with ⟨entry', hentry', h⟩ | ⟨hleft, -, h⟩ <;>
    obtain rfl := (add_inj.1 h).2
  · have hapart := apart rows (reads_of_shared hstep hshared)
    obtain rfl := hapart.eq_of_part ((mem_joining (c := c) rfl).1 hentry').1 hrow hlast
    exact absurd hentry' (hlonely c hc)
  · subst hlength
    change Meet steps (c ++ none :: []) (List.replicate c.length none ++ some entry :: [])
    exact .intro hstep (JoinStep.full_of_keeps hleft hright) (part_eq_null hbefore) hlast.symm rfl

/-- What a step keeps: combinations that have the same key are equal or meet. -/
theorem Distinct.next (hall : ∀ c ∈ cs, Joinable ev body outer step shared c)
    (h : Distinct ev fixed steps position cs) :
    Distinct ev fixed steps (position + 1) (next ev body outer step position shared cs) where
  nodup := nodup_next h.nodup
  length c' hc' := length_of_mem_next hc' h.length
  drawn c' hc' i entry hentry := by
    rcases mem_next.1 hc' with ⟨c, hc, entry', hentry', rfl⟩ | ⟨-, c, hc, -, rfl⟩ |
      ⟨entry', hentry', rfl⟩
    · rw [getElem?_add, h.length c hc] at hentry
      split at hentry
      next hi =>
        cases hentry
        obtain ⟨rows, hrows, -⟩ := hall c hc
        exact ⟨rows, hi ▸ reads_of_rowsFor hstep hshared hrows, ((mem_joining hrows).1 hentry').1⟩
      · exact h.drawn c hc i entry hentry
    · rw [getElem?_add] at hentry
      split at hentry
      · cases hentry
      · exact h.drawn c hc i entry hentry
    · obtain ⟨-, ⟨rows, rfl, hrow⟩, -⟩ := mem_unjoined.1 hentry'
      rw [lone, getElem?_add, List.length_replicate, List.getElem?_replicate] at hentry
      split at hentry
      next hi =>
        cases hentry
        exact ⟨rows, hi ▸ reads_of_shared hstep hshared, hrow⟩
      · split at hentry <;> cases hentry
  meets c hc c' hc' hparts := by
    rcases cases_of_mem_next hc with ⟨b, hb, x, rfl, hx⟩ | ⟨entry, hentry, rfl⟩ <;>
      rcases cases_of_mem_next hc' with ⟨b', hb', x', rfl, hx'⟩ | ⟨entry', hentry', rfl⟩
    · rw [parts_add, parts_add] at hparts
      obtain ⟨hbefore, hlast⟩ := List.append_singleton_inj.1 hparts
      rcases h.meets b hb b' hb' hbefore with rfl | hmeet | hmeet
      · exact .inl (congrArg b.add (eq_of_extensions hstep hshared apart (hall b hb) hx hx' hlast))
      · exact .inr (.inl (hmeet.add hlast))
      · exact .inr (.inr (hmeet.add hlast.symm))
    · exact .inr (.inl (meet_of_unjoined hstep hshared apart hb (h.length b hb) hx hentry' hparts))
    · exact .inr (.inr
        (meet_of_unjoined hstep hshared apart hb' (h.length b' hb') hx' hentry hparts.symm))
    · rw [lone, lone, parts_add, parts_add] at hparts
      obtain ⟨-, ⟨rows, rfl, hrow⟩, -⟩ := mem_unjoined.1 hentry
      obtain ⟨-, ⟨_, hrows, hrow'⟩, -⟩ := mem_unjoined.1 hentry'
      cases hrows
      have hapart := apart rows (reads_of_shared hstep hshared)
      obtain rfl := hapart.eq_of_part hrow hrow' (List.append_singleton_inj.1 hparts).2
      exact .inl rfl

end

/-- Where the keys of the rows that are read at each position stay apart, a join makes of rows of
its sources combinations whose keys differ, but for those that meet. -/
theorem enumerate_distinct {joins : JoinPlan}
    (apart : ∀ i rows, Reads ev fixed joins.steps i rows → rows.Apart) {ts : List Tuple}
    (h : joins.enumerate ev outer fixed = .ok ts) :
    ∃ cs, ts = cs.map tuple ∧ Distinct ev fixed joins.steps joins.steps.length cs := by
  obtain ⟨joined, hjoined, hts⟩ := Except.bind_eq_ok.1 h
  obtain ⟨cs, rfl, hcs⟩ := runSteps_combine (P := Distinct ev fixed joins.steps)
    (fun i step shared hstep hshared cs hcs hall => by
      rw [Nat.zero_add] at hshared hcs ⊢
      exact hcs.next hstep hshared (apart i) hall) .start hjoined
  rw [Nat.zero_add] at hcs
  obtain ⟨-, rfl⟩ := filtered_toPartial.1 hts
  exact ⟨_, rfl, hcs.sublist List.filter_sublist⟩

end JoinPlan

end LiveQuery
