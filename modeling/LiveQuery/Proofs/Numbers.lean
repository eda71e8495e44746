import LiveQuery.Proofs.Accumulator.Requests
import LiveQuery.Proofs.Binary64
import LiveQuery.Proofs.View.Window

/-!
# Numbers in the order of their values

An integer and a float are compared after the integer has been rounded to a double. Rounding takes
an integer past no float, but it may take it onto one: then the integer comes before the float, also
where its value is greater. Zero is rounded to the zero without a sign, and comes after minus zero,
although their values are the same.

**Results.** `Scalar.cmp_int_float_iff`: where the place of an integer and a float is that of their
values. `Scalar.atMost_iff`: which numbers comparison has in the wrong order. `Scalar.numbers_ordered`:
both, and what sorting and the extremes of a group are with it.
-/

namespace LiveQuery

namespace Scalar

/-- The exact value of a number. -/
def number? : Scalar → Option ℚ
  | int i => some i.toInt
  | float x => if x.isFinite then some x.value else none
  | _ => none

/-- Two numbers, the value of the first at most that of the second. -/
def AtMost (a b : Scalar) : Prop :=
  ∃ p q, a.number? = some p ∧ b.number? = some q ∧ p ≤ q

/-- The place of an integer to a float by their values, the integer first when they are the same. -/
def placeByValue (i : Int64) (x : Binary64) : Ordering :=
  if (i.toInt : ℚ) ≤ x.value then .lt else .gt

/-- An integer that is rounded to a smaller float. -/
inductive Undercuts : Scalar → Scalar → Prop
  | rounded {i : Int64} {x : Binary64} (below : x.value < i.toInt)
      (rounds : Binary64.ofInt i.toInt = x) : Undercuts (.int i) (.float x)

/-- An integer whose place to a float is not that of their values. -/
inductive Misplaced : Int64 → Binary64 → Prop
  | rounded {i : Int64} {x : Binary64} (undercuts : Undercuts (.int i) (.float x)) : Misplaced i x
  | zero : Misplaced 0 .minusZero

/-! ## An integer and a float -/

variable {i : Int64} {x : Binary64}

theorem cmp_int_float (i : Int64) (x : Binary64) :
    cmp (.int i) (.float x) = if (Binary64.ofInt i.toInt).rank ≤ x.rank then .lt else .gt := by
  show (compare (Binary64.ofInt i.toInt).rank x.rank).then .lt = _
  split
  next hle =>
    rcases Int.lt_or_eq_of_le hle with hlt | heq
    · rw [Std.compare_eq_lt.2 hlt]
      rfl
    · rw [heq, Std.compare_self]
      rfl
  next hgt =>
    rw [Std.compare_eq_gt.2 (Int.not_le.1 hgt)]
    rfl

theorem cmp_float_int (x : Binary64) (i : Int64) :
    cmp (.float x) (.int i) = if x.rank < (Binary64.ofInt i.toInt).rank then .lt else .gt := by
  rw [cmp_swap, cmp_int_float]
  split <;> split <;> first | rfl | omega

/-- An integer that is placed before a smaller float has been rounded to it. -/
theorem undercuts_of_rank_le (hfinite : x.isFinite) (hlt : x.value < i.toInt)
    (hle : (Binary64.ofInt i.toInt).rank ≤ x.rank) : Undercuts (.int i) (.float x) :=
  .rounded hlt (Binary64.rank_injective
    (Int.le_antisymm hle (Binary64.rank_le_rank_ofInt hfinite hlt)))

/-- An integer and a finite float are placed by their values, unless the integer is rounded to the
float from above, or they are zero and minus zero. -/
theorem cmp_int_float_iff (hfinite : x.isFinite) :
    cmp (.int i) (.float x) = placeByValue i x ↔ ¬Misplaced i x := by
  rw [cmp_int_float, placeByValue]
  by_cases hvalue : (i.toInt : ℚ) ≤ x.value
  · rw [if_pos hvalue]
    by_cases hzero : i = 0 ∧ x = .minusZero
    · obtain ⟨rfl, rfl⟩ := hzero
      exact iff_of_false (by decide) fun h => h .zero
    · have hle : (Binary64.ofInt i.toInt).rank ≤ x.rank :=
        Binary64.rank_ofInt_le_of_le hfinite hvalue fun h => hzero ⟨Int64.toInt_inj.1 h.1, h.2⟩
      refine iff_of_true (if_pos hle) ?_
      rintro (⟨⟨hbelow, _⟩⟩ | _)
      · exact absurd hvalue (not_le.2 hbelow)
      · exact hzero ⟨rfl, rfl⟩
  · rw [if_neg hvalue]
    have hlt := not_le.1 hvalue
    by_cases hle : (Binary64.ofInt i.toInt).rank ≤ x.rank
    · rw [if_pos hle]
      exact iff_of_false (by decide) fun h => h (.rounded (undercuts_of_rank_le hfinite hlt hle))
    · refine iff_of_true (if_neg hle) ?_
      rintro (⟨⟨_, rfl⟩⟩ | _)
      · exact hle (Int.le_refl _)
      · exact absurd hlt (by decide +kernel)

/-- Apart from zero only integers beyond the bound are misplaced. -/
theorem Misplaced.beyond (h : Misplaced i x) :
    i = 0 ∧ x = .minusZero ∨ Binary64.exactBound < i.toInt.natAbs := by
  cases h with
  | zero => exact .inl ⟨rfl, rfl⟩
  | rounded undercuts =>
      obtain ⟨hbelow, hrounds⟩ := undercuts
      refine .inr (Nat.lt_of_not_le fun hle => ?_)
      rw [← hrounds, Binary64.value_ofInt hle] at hbelow
      exact absurd hbelow (lt_irrefl _)

theorem Undercuts.not_atMost {a b : Scalar} (h : Undercuts a b) : ¬a.AtMost b := by
  rintro ⟨p, q, hp, hq, hle⟩
  cases h with
  | rounded below rounds =>
      cases hp
      obtain ⟨-, rfl⟩ := Option.ite_some_none_eq_some.1 hq
      exact absurd hle (not_le.2 below)

/-! ## Two numbers -/

/-- Of two numbers in order the first has at most the value of the second, unless it is rounded to
it from above. -/
theorem atMost_iff {a b : Scalar} {p q : ℚ} (ha : a.number? = some p) (hb : b.number? = some q)
    (h : (compare a b).isLE) : a.AtMost b ↔ ¬Undercuts a b := by
  have hiff : a.AtMost b ↔ p ≤ q := by
    refine ⟨?_, fun hle => ⟨p, q, ha, hb, hle⟩⟩
    rintro ⟨p', q', hp', hq', hle⟩
    rwa [Option.some.inj (ha.symm.trans hp'), Option.some.inj (hb.symm.trans hq')]
  rw [hiff]
  cases a with
  | int i =>
      cases ha
      cases b with
      | int j =>
          cases hb
          have hle : i.toInt ≤ j.toInt := Std.isLE_compare.1 h
          exact iff_of_true (Int.cast_le.2 hle) nofun
      | float y =>
          obtain ⟨hfinite, rfl⟩ := Option.ite_some_none_eq_some.1 hb
          have hle : (Binary64.ofInt i.toInt).rank ≤ y.rank := by
            by_contra hgt
            rw [show compare (int i) (float y) = _ from cmp_int_float i y, if_neg hgt] at h
            cases h
          refine ⟨fun hvalue => ?_, fun hnot => ?_⟩
          · rintro ⟨hbelow, -⟩
            exact absurd hvalue (not_le.2 hbelow)
          · by_contra hgt
            exact hnot (undercuts_of_rank_le hfinite (not_le.1 hgt) hle)
      | _ => cases hb
  | float x =>
      obtain ⟨hfinite, rfl⟩ := Option.ite_some_none_eq_some.1 ha
      refine iff_of_true ?_ nofun
      cases b with
      | int j =>
          cases hb
          have hlt : x.rank < (Binary64.ofInt j.toInt).rank := by
            by_contra hge
            rw [show compare (float x) (int j) = _ from cmp_float_int x j, if_neg hge] at h
            cases h
          by_contra hgt
          have hle := Binary64.rank_ofInt_le_of_le hfinite (le_of_lt (not_le.1 hgt)) ?_
          · exact absurd hlt (Int.not_lt.2 hle)
          · rintro ⟨hj, rfl⟩
            rw [hj] at hgt
            exact hgt (by decide +kernel)
      | float y =>
          obtain ⟨-, rfl⟩ := Option.ite_some_none_eq_some.1 hb
          exact Binary64.value_le_value (Std.isLE_compare.1 h)
      | _ => cases hb
  | _ => cases ha

end Scalar

/-! ## Sorting -/

/-- Two values in the order of a direction, the first one first. -/
def Direction.Puts (direction : Direction) (r : Scalar → Scalar → Prop) (x y : Scalar) : Prop :=
  match direction with
  | .asc => r x y
  | .desc => r y x

/-- Where the values for the first terms are the same, those for the next one are in order. -/
theorem compareTerms_take {terms : List OrderTerm} {xs ys : List Scalar} {n : Nat}
    (h : (compareTerms terms xs ys).isLE) (hsame : xs.take n = ys.take n) {term : OrderTerm}
    {x y : Scalar} (hterm : terms[n]? = some term) (hx : xs[n]? = some x) (hy : ys[n]? = some y) :
    term.direction.Puts (fun a b => (compare a b).isLE) x y := by
  induction n generalizing terms xs ys with
  | zero =>
      obtain ⟨terms, rfl⟩ := List.head?_eq_some_iff.1 (List.head?_eq_getElem? ▸ hterm)
      obtain ⟨xs, rfl⟩ := List.head?_eq_some_iff.1 (List.head?_eq_getElem? ▸ hx)
      obtain ⟨ys, rfl⟩ := List.head?_eq_some_iff.1 (List.head?_eq_getElem? ▸ hy)
      have hfirst := Ordering.isLE_left_of_isLE_then (by simpa only [compareTerms] using h)
      unfold Direction.Puts
      cases hdirection : term.direction <;> simpa only [hdirection] using hfirst
  | succ n ih =>
      cases terms with
      | nil => cases hterm
      | cons first terms =>
          cases xs with
          | nil => cases hx
          | cons x' xs =>
              cases ys with
              | nil => cases hy
              | cons y' ys =>
                  obtain ⟨rfl, hrest⟩ := List.cons.inj hsame
                  refine ih ?_ hrest hterm hx hy
                  have hself : compare x' x' = .eq := Std.compare_self
                  unfold compareTerms at h
                  rw [hself] at h
                  cases hdirection : first.direction <;> simpa [hdirection] using h

namespace Body

variable {body : Body} {staged : OrdMap Key StagedRow}

/-- Where two rows are sorted by numbers, these are in the order of their values, unless one of them
is rounded to the other from above. -/
theorem Before.puts {a b : Key × StagedRow} (h : body.Before a b) {n : Nat}
    (hsame : a.2.sort.take n = b.2.sort.take n) {term : OrderTerm} {x y : Scalar}
    (hterm : body.orderTerms[n]? = some term) (hx : a.2.sort[n]? = some x)
    (hy : b.2.sort[n]? = some y) {p q : ℚ} (hp : x.number? = some p) (hq : y.number? = some q) :
    term.direction.Puts (fun v w => v.AtMost w ↔ ¬v.Undercuts w) x y := by
  have hle : (compareTerms body.orderTerms a.2.sort b.2.sort).isLE := by
    refine Ordering.isLE_left_of_isLE_then (?_ : (Ordering.then _ (compare a.1 b.1)).isLE)
    rw [show Ordering.then _ _ = Ordering.lt from h]
    rfl
  have hput := compareTerms_take hle hsame hterm hx hy
  unfold Direction.Puts at hput ⊢
  cases hdirection : term.direction <;> simp only [hdirection] at hput ⊢
  · exact Scalar.atMost_iff hp hq hput
  · exact Scalar.atMost_iff hq hp hput

end Body

/-! ## Numbers -/

namespace Scalar

open Accumulator (Request answer? start)

/-- An integer and a finite float are placed by their values, unless the integer is rounded to the
float from above, which only integers beyond the bound are, or they are zero and minus zero. So of
two numbers that a window sorts by, and of a number and the least or the greatest one of its group,
the one that comes first has at most the value of the other, unless it is rounded to it from
above. -/
theorem numbers_ordered (i : Int64) (x : Binary64) (hfinite : x.isFinite) :
    (cmp (.int i) (.float x) = placeByValue i x ↔ ¬Misplaced i x) ∧
    (Misplaced i x → i = 0 ∧ x = .minusZero ∨ Binary64.exactBound < i.toInt.natAbs) ∧
    (∀ (body : Body) (staged : OrdMap Key StagedRow), body.Sortable staged →
      (body.shown staged).Pairwise fun a b => ∀ n term x y, body.orderTerms[n]? = some term →
        a.2.sort.take n = b.2.sort.take n → a.2.sort[n]? = some x → b.2.sort[n]? = some y →
        x.number?.isSome → y.number?.isSome →
        term.direction.Puts (fun v w => v.AtMost w ↔ ¬Undercuts v w) x y) ∧
    ∀ requests survivors arguments, Request.Leave requests survivors → presentOf survivors ≠ 0 →
      (∀ value ∈ presentOf survivors, value.number?.isSome) →
      ∃ least greatest, requests.foldlM answer? (start .min arguments) = some least ∧
        requests.foldlM answer? (start .max arguments) = some greatest ∧
        least.value ∈ presentOf survivors ∧ greatest.value ∈ presentOf survivors ∧
        ∀ other ∈ presentOf survivors,
          (least.value.AtMost other ↔ ¬Undercuts least.value other) ∧
          (other.AtMost greatest.value ↔ ¬Undercuts other greatest.value) := by
  refine ⟨cmp_int_float_iff hfinite, Misplaced.beyond, fun body staged hsortable => ?_,
    fun requests survivors arguments hleave hsome hnumbers => ?_⟩
  · refine ((Body.pairwise_ranking hsortable).sublist (body.shown_sublist staged)).imp ?_
    intro a b hbefore n term x y hterm hsame hx hy hp hq
    obtain ⟨p, hp⟩ := Option.isSome_iff_exists.1 hp
    obtain ⟨q, hq⟩ := Option.isSome_iff_exists.1 hq
    exact hbefore.puts hsame hterm hx hy hp hq
  · obtain ⟨hleast, hbelow⟩ := (Accumulator.value_min survivors arguments).2 hsome
    obtain ⟨hgreatest, habove⟩ := (Accumulator.value_max survivors arguments).2 hsome
    refine ⟨_, _, hleave.foldlM_answer? .min arguments, hleave.foldlM_answer? .max arguments, hleast,
      hgreatest, fun other hother => ?_⟩
    obtain ⟨p, hp⟩ := Option.isSome_iff_exists.1 (hnumbers _ hleast)
    obtain ⟨q, hq⟩ := Option.isSome_iff_exists.1 (hnumbers _ hgreatest)
    obtain ⟨r, hr⟩ := Option.isSome_iff_exists.1 (hnumbers _ hother)
    exact ⟨atMost_iff hp hr (hbelow other hother), atMost_iff hr hq (habove other hother)⟩

/-- Two and a half. -/
def twoAndAHalf : Binary64 := ⟨0x4004000000000000⟩

/-- Two to the power 53. -/
def power53 : Binary64 := ⟨0x4340000000000000⟩

theorem undercuts_power53 : Undercuts (.int 9007199254740993) (.float power53) :=
  .rounded (by decide +kernel) (by decide +kernel)

/-- A body that sorts by one value. -/
def sorting : Body where
  orderBy := some [⟨.literal 0 .null, .asc⟩]

/-- Two output rows, each with a value to sort by. -/
def sortedBy (v w : Scalar) : OrdMap Key StagedRow :=
  (OrdMap.empty.insert (.ofScalar .null) ⟨.nil, [v]⟩).insert (.ofScalar (.int 0)) ⟨.nil, [w]⟩

theorem sortable_sortedBy (v w : Scalar) : sorting.Sortable (sortedBy v w) := by
  intro key row hrow
  unfold sortedBy at hrow
  rw [OrdMap.get?_insert_eq, OrdMap.get?_insert_eq] at hrow
  split at hrow
  · cases hrow
    rfl
  · split at hrow
    · cases hrow
      rfl
    · cases hrow

/-- Two and a half has its place between two and three. -/
theorem numbers_ordered_between :
    twoAndAHalf.isFinite ∧ cmp (.int 2) (.float twoAndAHalf) = .lt ∧
      cmp (.int 3) (.float twoAndAHalf) = .gt ∧
      sorting.Sortable (sortedBy (.int 3) (.float twoAndAHalf)) ∧
      ((sorting.shown (sortedBy (.int 3) (.float twoAndAHalf))).Pairwise fun a b =>
        ∀ v w, a.2.sort = [v] → b.2.sort = [w] → v.number?.isSome → w.number?.isSome →
          (v.AtMost w ↔ ¬Undercuts v w)) ∧
      Request.Leave [.add (.int 3), .add (.float twoAndAHalf)] {.float twoAndAHalf, .int 3} ∧
      ∃ least, [Request.add (.int 3), .add (.float twoAndAHalf)].foldlM answer? (start .min 1)
        = some least ∧ least.value = .float twoAndAHalf ∧ least.value.AtMost (.int 3) := by
  have hfinite : twoAndAHalf.isFinite := by decide
  obtain ⟨htwo, hbeyond, hsorted, hextremes⟩ := numbers_ordered 2 twoAndAHalf hfinite
  obtain ⟨hthree, hbeyond', -, -⟩ := numbers_ordered 3 twoAndAHalf hfinite
  have hleave : Request.Leave [.add (.int 3), .add (.float twoAndAHalf)]
      {.float twoAndAHalf, .int 3} :=
    .add (.float twoAndAHalf) (.add (.int 3) .nil)
  refine ⟨hfinite, ?_, ?_, sortable_sortedBy _ _, ?_, hleave, ?_⟩
  · rw [htwo.2 fun h => absurd (hbeyond h) (by decide)]
    decide +kernel
  · rw [hthree.2 fun h => absurd (hbeyond' h) (by decide)]
    decide +kernel
  · refine (hsorted sorting _ (sortable_sortedBy _ _)).imp ?_
    intro a b h v w hv hw
    exact h 0 ⟨.literal 0 .null, .asc⟩ v w rfl rfl (by rw [hv]; rfl) (by rw [hw]; rfl)
  · have hpresent : presentOf {.float twoAndAHalf, .int 3} = {.float twoAndAHalf, .int 3} := by
      decide
    obtain ⟨least, _, hleast, -, -, -, hextreme⟩ := hextremes _ _ 1 hleave
      (by rw [hpresent]; exact Multiset.cons_ne_zero) (by rw [hpresent]; decide)
    have hvalue : least.value = .float twoAndAHalf := by
      cases hleast
      rfl
    refine ⟨least, hleast, hvalue, (hextreme (.int 3) (by rw [hpresent]; decide)).1.2 ?_⟩
    rw [hvalue]
    nofun

/-- Two to the power 53 and one more is put before the float of two to the power 53, and is the
least of the two of them, and the float the greatest. Zero is put after minus zero. -/
theorem numbers_misordered :
    ¬(∀ (i : Int64) (x : Binary64), x.isFinite → cmp (.int i) (.float x) = placeByValue i x) ∧
      cmp (.int 0) (.float .minusZero) = .gt ∧ placeByValue 0 .minusZero = .lt ∧
      (∃ least, [Request.add (.float power53), .add (.int 9007199254740993)].foldlM answer?
        (start .min 1) = some least ∧ ¬least.value.AtMost (.float power53)) ∧
      ∃ greatest, [Request.add (.float power53), .add (.int 9007199254740993)].foldlM answer?
        (start .max 1) = some greatest ∧ ¬(Scalar.int 9007199254740993).AtMost greatest.value := by
  refine ⟨fun h => ?_, by decide, by decide +kernel, ⟨_, rfl, ?_⟩, _, rfl, ?_⟩
  · exact absurd (h 9007199254740993 power53 (by decide)) (by decide +kernel)
  · exact undercuts_power53.not_atMost
  · exact undercuts_power53.not_atMost

end Scalar

end LiveQuery
