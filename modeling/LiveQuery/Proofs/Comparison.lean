import LiveQuery.Evaluator

/-!
# Comparing functions

`eq` looks at two integers exactly, at two floats bit by bit, and at an integer and a float as
values in double precision. The functions `lt`, `lte`, `gt` and `gte` put all numbers in the total
order of doubles. The two ways part where one double stands for several values: different integers
beyond `2 ^ 53` may round to one double, and the integer zero equals both zeros, of which the order
has one below it.

**Results.** `Evaluator.comparisons`: equality is reflexive and symmetric, and for which values
it is transitive; for which values exactly one of less, equal and greater holds; for which
integers less is their order. `Evaluator.comparisons_of_exact`: all of it, for integers up to
`2 ^ 53` and floats other than minus zero.
-/

namespace LiveQuery

namespace Binary64

def minusZero : Binary64 := ⟨0x8000000000000000⟩

/-- Two to the power 53: all integers up to this one are doubles. -/
def exactBound : Nat := 0x20000000000000

/-! ## Integers in double precision -/

theorem magnitude_ofInt (i : Int) : (ofInt i).magnitude = roundNat i.natAbs := by
  have hle := roundNat_le_infinityBits i.natAbs
  have hinf : infinityBits < 0x8000000000000000 := by decide
  unfold ofInt ofMagnitude magnitude
  rw [UInt64.toNat_ofNat']
  split <;> omega

theorem roundNat_eq_zero {n : Nat} : roundNat n = 0 ↔ n = 0 := by
  have hinf : infinityBits ≠ 0 := by decide
  constructor
  · intro h
    rcases Nat.eq_zero_or_pos n with hn | hn
    · exact hn
    · rw [roundNat_of_ne_zero (Nat.ne_of_gt hn)] at h
      have := le_significand (Nat.ne_of_gt hn)
      omega
  · rintro rfl
    rfl

theorem isNaN_ofInt (i : Int) : (ofInt i).isNaN = false := by
  simp [isNaN, magnitude_ofInt, roundNat_le_infinityBits]

theorem isZero_ofInt (i : Int) : (ofInt i).isZero = true ↔ i = 0 := by
  simp [isZero, magnitude_ofInt, roundNat_eq_zero]

theorem isZero_iff (x : Binary64) : x.isZero = true ↔ x = ofInt 0 ∨ x = minusZero := by
  obtain ⟨bits⟩ := x
  have hbits := bits.toNat_lt
  rw [isZero, decide_eq_true_iff]
  simp only [magnitude, show ofInt 0 = ⟨0⟩ from rfl, minusZero, Binary64.mk.injEq,
    ← UInt64.toNat_inj, UInt64.reduceToNat]
  omega

/-- A float that agrees with an integer is the double of the integer, or the other zero. -/
theorem sameValue_ofInt (i : Int) (x : Binary64) :
    (ofInt i).sameValue x = true ↔ ofInt i = x ∨ (i = 0 ∧ x = minusZero) := by
  simp only [sameValue, isNaN_ofInt, Bool.not_false, Bool.true_and, Bool.and_eq_true,
    Bool.not_eq_true', Bool.or_eq_true, beq_iff_eq, isZero_ofInt]
  constructor
  · rintro ⟨-, h | ⟨rfl, h⟩⟩
    · exact .inl h
    · exact ((isZero_iff x).1 h).imp Eq.symm fun hx => ⟨rfl, hx⟩
  · rintro (rfl | ⟨rfl, rfl⟩)
    · exact ⟨isNaN_ofInt i, .inl rfl⟩
    · exact ⟨rfl, .inr ⟨rfl, rfl⟩⟩

/-- No integer rounds to minus zero. -/
theorem ofInt_ne_minusZero (i : Int) : ofInt i ≠ minusZero := by
  intro h
  have hi : i = 0 := (isZero_ofInt i).1 ((isZero_iff _).2 (.inr h))
  rw [hi] at h
  exact absurd h (by decide)

theorem ofInt_eq_of_sameValue {i j : Int} {x : Binary64} (hi : (ofInt i).sameValue x = true)
    (hj : (ofInt j).sameValue x = true) : ofInt i = ofInt j := by
  rcases (sameValue_ofInt i x).1 hi with rfl | ⟨rfl, rfl⟩
  · rcases (sameValue_ofInt j _).1 hj with h | ⟨-, h⟩
    · exact h.symm
    · exact absurd h (ofInt_ne_minusZero i)
  · rcases (sameValue_ofInt j _).1 hj with h | ⟨rfl, -⟩
    · exact absurd h (ofInt_ne_minusZero j)
    · rfl

theorem isZero_of_sameValue {i : Int} {x y : Binary64} (hx : (ofInt i).sameValue x = true)
    (hy : (ofInt i).sameValue y = true) (hne : x ≠ y) :
    x.isZero = true ∧ y.isZero = true := by
  rw [isZero_iff, isZero_iff]
  rcases (sameValue_ofInt i x).1 hx with rfl | ⟨rfl, rfl⟩
  · rcases (sameValue_ofInt i y).1 hy with h | ⟨rfl, rfl⟩
    · exact absurd h hne
    · exact ⟨.inl rfl, .inr rfl⟩
  · rcases (sameValue_ofInt 0 y).1 hy with rfl | ⟨-, rfl⟩
    · exact ⟨.inr rfl, .inl rfl⟩
    · exact absurd rfl hne

/-- The sum of exponent and significand, before it is cut off at infinity. -/
theorem roundNat_of_small {n : Nat} (h0 : n ≠ 0) (h : n ≤ exactBound) :
    roundNat n = (n.log2 + 1022) * 0x10000000000000 + significand n := by
  unfold exactBound at h
  have hlog : n.log2 < 54 := (Nat.log2_lt h0).2 (by omega)
  have hsig := significand_le (n := n)
  rw [roundNat_of_ne_zero h0]
  apply Nat.min_eq_left
  unfold infinityBits
  omega

theorem significand_of_small {n : Nat} (h : n.log2 ≤ 52) :
    significand n = n * Nat.pow 2 (52 - n.log2) := by
  unfold significand
  rw [if_pos h]

/-- Natural numbers up to the bound keep their order strictly. -/
theorem roundNat_lt_roundNat {n m : Nat} (h : n < m) (hm : m ≤ exactBound) :
    roundNat n < roundNat m := by
  have hm0 : m ≠ 0 := by omega
  rcases Nat.eq_zero_or_pos n with rfl | hn
  · exact Nat.pos_of_ne_zero fun h0 => hm0 (roundNat_eq_zero.1 h0)
  have hn0 := Nat.ne_of_gt hn
  have hlog : n.log2 < 53 := (Nat.log2_lt hn0).2 (Nat.lt_of_lt_of_le h hm)
  have hmono : n.log2 ≤ m.log2 :=
    (Nat.le_log2 hm0).2 (Nat.le_trans (Nat.log2_self_le hn0) (Nat.le_of_lt h))
  have hunit : 0 < Nat.pow 2 (52 - n.log2) := Nat.two_pow_pos _
  rw [roundNat_of_small hn0 (Nat.le_trans (Nat.le_of_lt h) hm), roundNat_of_small hm0 hm,
    significand_of_small (Nat.le_of_lt_succ hlog)]
  rcases Nat.lt_or_eq_of_le hmono with hlt | heq
  · -- A smaller exponent leaves room for any significand.
    have hsig : n * Nat.pow 2 (52 - n.log2) < 0x20000000000000 := calc
      n * Nat.pow 2 (52 - n.log2) < 2 ^ (n.log2 + 1) * 2 ^ (52 - n.log2) :=
          Nat.mul_lt_mul_of_pos_right Nat.lt_log2_self hunit
      _ = 2 ^ 53 := by rw [← Nat.pow_add]; congr 1; omega
    have := le_significand hm0
    omega
  · rw [significand_of_small (heq ▸ Nat.le_of_lt_succ hlog), ← heq]
    have := Nat.mul_lt_mul_of_pos_right h hunit
    omega

theorem roundNat_inj {n m : Nat} (hn : n ≤ exactBound) (hm : m ≤ exactBound)
    (h : roundNat n = roundNat m) : n = m := by
  rcases Nat.lt_trichotomy n m with hlt | heq | hgt
  · exact absurd h (Nat.ne_of_lt (roundNat_lt_roundNat hlt hm))
  · exact heq
  · exact absurd h (Nat.ne_of_gt (roundNat_lt_roundNat hgt hn))

/-- Integers up to the bound are told apart in double precision. -/
theorem ofInt_inj {i j : Int} (hi : i.natAbs ≤ exactBound) (hj : j.natAbs ≤ exactBound)
    (h : ofInt i = ofInt j) : i = j := by
  have hnat : i.natAbs = j.natAbs := by
    apply roundNat_inj hi hj
    rw [← magnitude_ofInt, h, magnitude_ofInt]
  have hrank := congrArg rank h
  unfold ofInt at hrank
  rw [rank_ofMagnitude (roundNat_le_infinityBits _),
    rank_ofMagnitude (roundNat_le_infinityBits _)] at hrank
  by_cases hineg : i < 0 <;> by_cases hjneg : j < 0 <;>
    simp only [hineg, hjneg, decide_true, decide_false, if_true, Bool.false_eq_true,
      if_false] at hrank <;>
    omega

end Binary64

/-! ## Values on which the functions part -/

namespace Scalar

/-- Values of kinds that have an order in conditions. -/
inductive Comparable : Scalar → Scalar → Prop
  | numbers {a b : Scalar} : a.isNumber = true → b.isNumber = true → Comparable a b
  | texts (s t : String) : Comparable (.text s) (.text t)
  | bools (p q : Bool) : Comparable (.bool p) (.bool q)

/-- Different integers that are one double; and the integer zero with minus zero. -/
inductive Blurred : Scalar → Scalar → Prop
  | ints {i j : Int64} : i ≠ j → Binary64.ofInt i.toInt = Binary64.ofInt j.toInt →
      Blurred (.int i) (.int j)
  | zero_left : Blurred (.int 0) (.float .minusZero)
  | zero_right : Blurred (.float .minusZero) (.int 0)

/-- Different values that equal a third one: integers that are one double, and the zeros. -/
inductive Parted : Scalar → Scalar → Prop
  | ints {i j : Int64} : i ≠ j → Binary64.ofInt i.toInt = Binary64.ofInt j.toInt →
      Parted (.int i) (.int j)
  | zeros {x y : Binary64} : x ≠ y → x.isZero = true → y.isZero = true →
      Parted (.float x) (.float y)

/-- An integer up to `2 ^ 53`, a float other than minus zero, or no number. -/
def IsExact : Scalar → Prop
  | int i => i.toInt.natAbs ≤ Binary64.exactBound
  | float x => x ≠ .minusZero
  | _ => True

theorem Blurred.not_exact {a b : Scalar} (h : Blurred a b) (ha : a.IsExact) (hb : b.IsExact) :
    False := by
  cases h with
  | ints hne heq => exact hne (Int64.toInt_inj.1 (Binary64.ofInt_inj ha hb heq))
  | zero_left => exact hb rfl
  | zero_right => exact ha rfl

theorem Parted.not_exact {a b : Scalar} (h : Parted a b) (ha : a.IsExact) (hb : b.IsExact) :
    False := by
  cases h with
  | ints hne heq => exact hne (Int64.toInt_inj.1 (Binary64.ofInt_inj ha hb heq))
  | @zeros x y hne hx hy =>
      have hx0 := ((Binary64.isZero_iff x).1 hx).resolve_right ha
      have hy0 := ((Binary64.isZero_iff y).1 hy).resolve_right hb
      exact hne (hx0.trans hy0.symm)

/-! ## Equality -/

theorem agreesWith_self (a : Scalar) : a.agreesWith a = true := by
  cases a <;> exact beq_self_eq_true _

theorem agreesWith_comm (a b : Scalar) : a.agreesWith b = b.agreesWith a := by
  cases a <;> cases b <;> first | rfl | exact Bool.beq_comm

/-- Equal values are the same, or an integer and a float of the same value. -/
theorem agreesWith_cases {a b : Scalar} (h : a.agreesWith b = true) :
    a = b
      ∨ (∃ i x, a = .int i ∧ b = .float x ∧ (Binary64.ofInt i.toInt).sameValue x = true)
      ∨ (∃ i x, a = .float x ∧ b = .int i ∧ (Binary64.ofInt i.toInt).sameValue x = true) := by
  unfold agreesWith at h
  split at h
  next i x => exact .inr (.inl ⟨i, x, rfl, rfl, h⟩)
  next x i => exact .inr (.inr ⟨i, x, rfl, rfl, h⟩)
  next => exact .inl (eq_of_beq h)

theorem agreesWith_int (i j : Int64) :
    (Scalar.int i).agreesWith (.int j) = true ↔ i = j := by
  simp [agreesWith]

theorem agreesWith_float (x y : Binary64) :
    (Scalar.float x).agreesWith (.float y) = true ↔ x = y := by
  simp [agreesWith]

theorem Parted.not_agreesWith {a b : Scalar} (h : Parted a b) : ¬ a.agreesWith b = true := by
  cases h with
  | ints hne _ => exact fun heq => hne ((agreesWith_int _ _).1 heq)
  | zeros hne _ _ => exact fun heq => hne ((agreesWith_float _ _).1 heq)

/-- Two values that equal a third one are equal, unless it is one of those that stand for
several. -/
theorem agreesWith_trans_iff {a b c : Scalar} (hab : a.agreesWith b = true)
    (hbc : b.agreesWith c = true) : a.agreesWith c = true ↔ ¬ Parted a c := by
  rcases agreesWith_cases hab with rfl | ⟨i, x, rfl, rfl, hi⟩ | ⟨i, x, rfl, rfl, hx⟩
  · exact ⟨fun _ h => h.not_agreesWith hbc, fun _ => hbc⟩
  · rcases agreesWith_cases hbc with rfl | ⟨_, _, h, _⟩ | ⟨j, y, hy, rfl, hj⟩
    · exact ⟨fun _ h => h.not_agreesWith hab, fun _ => hab⟩
    · cases h
    · cases hy
      refine ⟨fun heq h => h.not_agreesWith heq, fun hnot => (agreesWith_int i j).2 ?_⟩
      exact Decidable.byContradiction fun hne =>
        hnot (.ints hne (Binary64.ofInt_eq_of_sameValue hi hj))
  · rcases agreesWith_cases hbc with rfl | ⟨j, y, hj, rfl, hy⟩ | ⟨_, _, h, _⟩
    · exact ⟨fun _ h => h.not_agreesWith hab, fun _ => hab⟩
    · cases hj
      refine ⟨fun heq h => h.not_agreesWith heq, fun hnot => (agreesWith_float x y).2 ?_⟩
      refine Decidable.byContradiction fun hne => hnot ?_
      obtain ⟨hx0, hy0⟩ := Binary64.isZero_of_sameValue hx hy hne
      exact .zeros hne hx0 hy0
    · cases h

/-! ## Order -/

/-- Where an integer and a float are equal, they tie, except for zero and minus zero. -/
theorem agrees_iff_ties {i : Int64} {x : Binary64} :
    ((Binary64.ofInt i.toInt).sameValue x = true ↔ compare (Binary64.ofInt i.toInt) x = .eq)
      ↔ ¬ (i = 0 ∧ x = .minusZero) := by
  rw [Binary64.sameValue_ofInt, Std.LawfulEqOrd.compare_eq_iff_eq, ← Int64.toInt_inj]
  constructor
  · rintro h ⟨hi, rfl⟩
    have hzero := h.1 (.inr ⟨hi, rfl⟩)
    rw [hi] at hzero
    exact absurd hzero (by decide)
  · intro h
    exact ⟨fun hor => hor.resolve_right h, .inl⟩

theorem not_nullish_of_isNumber {a : Scalar} (h : a.isNumber = true) : a.isNullish = false := by
  cases a <;> first | rfl | cases h

theorem Comparable.not_nullish {a b : Scalar} (h : Comparable a b) :
    a.isNullish = false ∧ b.isNullish = false := by
  cases h with
  | numbers ha hb => exact ⟨not_nullish_of_isNumber ha, not_nullish_of_isNumber hb⟩
  | texts s t => exact ⟨rfl, rfl⟩
  | bools p q => exact ⟨rfl, rfl⟩

/-- Comparable values have a place to each other; they are equal where neither comes first,
unless they blur. -/
theorem Comparable.comparison {a b : Scalar} (h : Comparable a b) :
    ∃ o, Function.comparison a b = some o
      ∧ ((a.agreesWith b = true ↔ o = .eq) ↔ ¬ Blurred a b) := by
  cases h with
  | texts s t =>
      refine ⟨compare s t, rfl, iff_of_true ?_ nofun⟩
      simp [agreesWith]
  | bools p q =>
      refine ⟨compare p q, rfl, iff_of_true ?_ nofun⟩
      simp [agreesWith]
  | numbers ha hb =>
      cases a <;> cases ha <;> cases b <;> cases hb
      next i j =>
        refine ⟨_, rfl, ?_⟩
        rw [agreesWith_int, Std.LawfulEqOrd.compare_eq_iff_eq]
        constructor
        · rintro h (⟨hne, heq⟩)
          exact hne (h.2 heq)
        · intro h
          refine ⟨fun hij => by rw [hij], fun heq => ?_⟩
          exact Decidable.byContradiction fun hne => h (.ints hne heq)
      next i x =>
        refine ⟨_, rfl, agrees_iff_ties.trans (not_congr ⟨?_, ?_⟩)⟩
        · rintro ⟨rfl, rfl⟩
          exact .zero_left
        · rintro ⟨⟩
          exact ⟨rfl, rfl⟩
      next x i =>
        refine ⟨_, rfl, ?_⟩
        rw [Std.OrientedCmp.eq_comm]
        refine agrees_iff_ties.trans (not_congr ⟨?_, ?_⟩)
        · rintro ⟨rfl, rfl⟩
          exact .zero_right
        · rintro ⟨⟩
          exact ⟨rfl, rfl⟩
      next x y =>
        refine ⟨_, rfl, iff_of_true ?_ nofun⟩
        rw [agreesWith_float, Std.LawfulEqOrd.compare_eq_iff_eq]

/-- The doubles of two integers are in the order of the integers, unless they blur. -/
theorem compare_ofInt_eq_lt {i j : Int64} :
    compare (Binary64.ofInt i.toInt) (Binary64.ofInt j.toInt) = .lt
      ↔ i.toInt < j.toInt ∧ ¬ Blurred (.int i) (.int j) := by
  have hcompare : compare (Binary64.ofInt i.toInt) (Binary64.ofInt j.toInt)
      = compare (Binary64.ofInt i.toInt).rank (Binary64.ofInt j.toInt).rank := rfl
  rw [hcompare, Std.compare_eq_lt]
  constructor
  · intro hlt
    refine ⟨Int.not_le.1 fun hle => ?_, ?_⟩
    · exact absurd (Binary64.rank_ofInt_le hle) (Int.not_le.2 hlt)
    · rintro (⟨-, heq⟩)
      exact absurd hlt (heq ▸ Int.lt_irrefl _)
  · rintro ⟨hlt, hnot⟩
    have hne : i ≠ j := by
      rintro rfl
      exact Int.lt_irrefl _ hlt
    exact Int.lt_iff_le_and_ne.2 ⟨Binary64.rank_ofInt_le (Int.le_of_lt hlt),
      fun hrank => hnot (.ints hne (Binary64.rank_injective hrank))⟩

end Scalar

namespace Evaluator

variable (ev : Evaluator)

/-- A function of two values evaluates to true. -/
def Holds (function : Function) (a b : Scalar) : Prop :=
  ev.applied function [a, b] = .ok (.bool true)

/-- Exactly one of less, equal and greater holds, and the weak comparisons hold where their
strict one or equality does. -/
structure Trichotomous (a b : Scalar) : Prop where
  one : (ev.Holds .lt a b ∧ ¬ ev.Holds .eq a b ∧ ¬ ev.Holds .gt a b)
    ∨ (¬ ev.Holds .lt a b ∧ ev.Holds .eq a b ∧ ¬ ev.Holds .gt a b)
    ∨ (¬ ev.Holds .lt a b ∧ ¬ ev.Holds .eq a b ∧ ev.Holds .gt a b)
  lte : ev.Holds .lte a b ↔ ev.Holds .lt a b ∨ ev.Holds .eq a b
  gte : ev.Holds .gte a b ↔ ev.Holds .gt a b ∨ ev.Holds .eq a b

theorem holds_iff (function : Function) (a b : Scalar) :
    ev.Holds function a b ↔ function.apply [a, b] = some (.bool true) := by
  unfold Holds applied
  cases function.apply [a, b] with
  | some value => simp
  | none => cases ev.policy <;> simp [FieldPolicy.settle]

instance (function : Function) (a b : Scalar) : Decidable (ev.Holds function a b) :=
  decidable_of_iff _ (ev.holds_iff function a b).symm

theorem holds_eq_iff (a b : Scalar) : ev.Holds .eq a b ↔ a.agreesWith b = true := by
  simp [holds_iff, Function.apply]

theorem holds_compared_iff {f : Function} {a b : Scalar} {o : Ordering}
    (hf : f ∈ [Function.lt, .lte, .gt, .gte]) (h : Scalar.Comparable a b)
    (ho : Function.comparison a b = some o) :
    ev.Holds f a b ↔ f.holdsFor o = true := by
  obtain ⟨ha, hb⟩ := h.not_nullish
  simp only [List.mem_cons, List.not_mem_nil, or_false] at hf
  rcases hf with rfl | rfl | rfl | rfl <;>
    simp [holds_iff, Function.apply, Function.compared, ha, hb, ho]

/-- The functions fit together where equality means a tie. -/
theorem trichotomous_iff {a b : Scalar} {o : Ordering} (h : Scalar.Comparable a b)
    (ho : Function.comparison a b = some o) :
    ev.Trichotomous a b ↔ (a.agreesWith b = true ↔ o = .eq) := by
  have hlt := ev.holds_compared_iff (f := .lt) (by decide) h ho
  have hlte := ev.holds_compared_iff (f := .lte) (by decide) h ho
  have hgt := ev.holds_compared_iff (f := .gt) (by decide) h ho
  have hgte := ev.holds_compared_iff (f := .gte) (by decide) h ho
  rw [← ev.holds_eq_iff a b]
  constructor
  · rintro ⟨hone, hle, hge⟩
    rw [hlt, hgt] at hone
    rw [hlt, hlte] at hle
    rw [hgt, hgte] at hge
    cases o <;> simp_all [Function.holdsFor]
  · intro heq
    constructor
    · rw [hlt, hgt, heq]
      cases o <;> decide
    · rw [hlt, hlte, heq]
      cases o <;> decide
    · rw [hgt, hgte, heq]
      cases o <;> decide

theorem holds_lt_int_iff (i j : Int64) :
    ev.Holds .lt (.int i) (.int j) ↔ i.toInt < j.toInt ∧ ¬ Scalar.Blurred (.int i) (.int j) := by
  rw [ev.holds_compared_iff (by decide) (.numbers rfl rfl) rfl, ← Scalar.compare_ofInt_eq_lt]
  cases compare (Binary64.ofInt i.toInt) (Binary64.ofInt j.toInt) <;> decide

/-- Equality is reflexive and symmetric, and goes over a third value unless the values part
there. Of two comparable values exactly one of less, equal and greater holds, and the weak
comparisons fit, unless the values blur; and then they do not. On integers less is their order,
unless they blur. -/
theorem comparisons :
    (∀ a, ev.Holds .eq a a)
      ∧ (∀ a b, ev.Holds .eq a b → ev.Holds .eq b a)
      ∧ (∀ a b c, ev.Holds .eq a b → ev.Holds .eq b c →
          (ev.Holds .eq a c ↔ ¬ Scalar.Parted a c))
      ∧ (∀ a b, Scalar.Comparable a b → (ev.Trichotomous a b ↔ ¬ Scalar.Blurred a b))
      ∧ (∀ i j : Int64, ev.Holds .lt (.int i) (.int j)
          ↔ i.toInt < j.toInt ∧ ¬ Scalar.Blurred (.int i) (.int j)) := by
  simp only [holds_eq_iff]
  refine ⟨Scalar.agreesWith_self, ?_, ?_, ?_, ev.holds_lt_int_iff⟩
  · intro a b h
    rwa [Scalar.agreesWith_comm]
  · intro a b c hab hbc
    exact Scalar.agreesWith_trans_iff hab hbc
  · intro a b h
    obtain ⟨o, ho, hiff⟩ := h.comparison
    exact (ev.trichotomous_iff h ho).trans hiff

/-- An evaluator that sees no rows. -/
def bare (policy : FieldPolicy) : Evaluator where
  plan := {}
  policy := policy
  inputs := ⟨fun _ _ => .ok .empty, fun _ _ => .ok []⟩

/-- The integers 1 and 2 and the floats of their values: equal over the float, and one below the
other; and two integers that are one double. -/
theorem comparisons_small_and_large :
    let ev := bare .strict
    let one : Scalar := .float (.ofInt 1)
    let large : Scalar := .int 9007199254740992
    let next : Scalar := .int 9007199254740993
    ev.Holds .eq one (.int 1) ∧ ev.Holds .eq (.int 1) (.int 1) ∧ ev.Holds .eq one one ∧
      ev.Trichotomous one (.int 2) ∧ ev.Holds .lt (.int 1) (.int 2) ∧
      ev.Holds .eq large (.float (.ofInt 9007199254740992)) ∧
      ev.Holds .eq (.float (.ofInt 9007199254740992)) next ∧
      ¬ ev.Holds .eq large next ∧ ¬ ev.Trichotomous large next := by
  intro ev one large next
  obtain ⟨hrefl, hsymm, htrans, hone, hlt⟩ := ev.comparisons
  have heq : ev.Holds .eq (.int 1) one := by decide
  have hleft : ev.Holds .eq large (.float (.ofInt 9007199254740992)) := by decide
  have hright : ev.Holds .eq (.float (.ofInt 9007199254740992)) next := by decide
  have hdouble : Binary64.ofInt (9007199254740992 : Int64).toInt
      = Binary64.ofInt (9007199254740993 : Int64).toInt := by decide
  have hexact : one.IsExact := show Binary64.ofInt 1 ≠ .minusZero by decide
  have hexact₁ : (Scalar.int 1).IsExact := show (1 : Int64).toInt.natAbs ≤ Binary64.exactBound by decide
  have hexact₂ : (Scalar.int 2).IsExact := show (2 : Int64).toInt.natAbs ≤ Binary64.exactBound by decide
  refine ⟨hsymm _ _ heq, hrefl _, ?_, ?_, ?_, hleft, hright, ?_, ?_⟩
  · exact (htrans one (.int 1) one (hsymm _ _ heq) heq).2 fun h => h.not_exact hexact hexact
  · exact (hone one (.int 2) (.numbers rfl rfl)).2 fun h => h.not_exact hexact hexact₂
  · exact (hlt 1 2).2 ⟨by decide, fun h => h.not_exact hexact₁ hexact₂⟩
  · exact fun h => (htrans _ _ _ hleft hright).1 h (.ints (by decide) hdouble)
  · exact fun h => (hone large next (.numbers rfl rfl)).1 h (.ints (by decide) hdouble)

/-- Beyond `2 ^ 53` the functions do not fit together: equality does not go over a float, of two
integers none of less, equal and greater holds, and less is not the order of the integers. -/
theorem comparisons_fail :
    ¬ (∀ a b c, (bare .undefined).Holds .eq a b → (bare .undefined).Holds .eq b c →
        (bare .undefined).Holds .eq a c)
      ∧ ¬ (∀ a b, Scalar.Comparable a b → (bare .undefined).Trichotomous a b)
      ∧ ¬ (∀ i j : Int64,
        (bare .undefined).Holds .lt (.int i) (.int j) ↔ i.toInt < j.toInt) := by
  refine ⟨fun htrans => ?_, fun hone => ?_, fun hlt => ?_⟩
  · exact absurd (htrans (.int 9007199254740992) (.float (.ofInt 9007199254740992))
      (.int 9007199254740993) (by decide) (by decide)) (by decide)
  · have hpair := hone (.int 9007199254740992) (.int 9007199254740993) (.numbers rfl rfl)
    exact absurd hpair.one (by decide)
  · exact absurd ((hlt 9007199254740992 9007199254740993).2 (by decide)) (by decide)

/-- Integers up to `2 ^ 53` and floats other than minus zero neither part nor blur. -/
theorem comparisons_of_exact :
    (∀ a b c, a.IsExact → c.IsExact → ev.Holds .eq a b → ev.Holds .eq b c → ev.Holds .eq a c)
      ∧ (∀ a b, a.IsExact → b.IsExact → Scalar.Comparable a b → ev.Trichotomous a b)
      ∧ (∀ i j, (Scalar.int i).IsExact → (Scalar.int j).IsExact →
          (ev.Holds .lt (.int i) (.int j) ↔ i.toInt < j.toInt)) := by
  simp only [holds_eq_iff]
  refine ⟨?_, ?_, ?_⟩
  · intro a b c ha hc hab hbc
    exact (Scalar.agreesWith_trans_iff hab hbc).2 fun h => h.not_exact ha hc
  · intro a b ha hb h
    obtain ⟨o, ho, hiff⟩ := h.comparison
    exact (ev.trichotomous_iff h ho).2 (hiff.2 fun hblur => hblur.not_exact ha hb)
  · intro i j hi hj
    rw [holds_lt_int_iff]
    exact and_iff_left fun h => h.not_exact hi hj

end Evaluator

end LiveQuery
