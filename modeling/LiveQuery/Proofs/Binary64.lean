import LiveQuery.Proofs.Comparison
import Mathlib.Algebra.Order.Field.Rat
import Mathlib.Algebra.Order.Field.Basic
import Mathlib.Tactic.Ring

/-!
# The values of doubles

A finite double stands for a multiple of the smallest positive one, `2 ^ -1074`. How many of them
there are grows strictly with the magnitude, so that the order of finite doubles is that of their
values, but for the two zeros.

An integer is rounded to a double that has no other one between itself and the integer. So rounding
may make an integer equal to a double, but never takes it past one.

**Results.** `Binary64.value_le_value`; `Binary64.rank_ofInt_le_of_le` and
`Binary64.rank_le_rank_ofInt`: where a finite double is in relation to a rounded integer;
`Binary64.value_ofInt`: integers that are not changed by rounding.
-/

namespace LiveQuery

namespace Binary64

/-- What a magnitude stands for, counted in the smallest positive double. A magnitude is a biased
exponent and 52 bits of fraction. -/
def units (m : Nat) : Nat :=
  let exponent := m / 0x10000000000000
  let fraction := m % 0x10000000000000
  if exponent = 0 then fraction else (0x10000000000000 + fraction) * 2 ^ (exponent - 1)

/-- The smallest positive double is `2 ^ -1074`. -/
def unitsPerOne : Nat := 2 ^ 1074

/-- What a finite number stands for, counted in the smallest positive one. -/
def scaled (x : Binary64) : Int :=
  if x.negative then -(units x.magnitude) else units x.magnitude

/-- The exact value of a finite number. -/
def value (x : Binary64) : ℚ :=
  x.scaled / unitsPerOne

/-! ## Units -/

theorem unitsPerOne_pos : 0 < unitsPerOne :=
  pow_pos Nat.two_pos 1074

theorem pow_mul_unitsPerOne {a b c : Nat} (h : a + 1074 = b + c) :
    2 ^ a * unitsPerOne = 2 ^ b * 2 ^ c :=
  (pow_add 2 a 1074).symm.trans ((congrArg (2 ^ ·) h).trans (pow_add 2 b c))

/-- A significand at an exponent. The greatest one is the least one at the next exponent. -/
theorem units_add {e q : Nat} (hlow : 0x10000000000000 ≤ q) (hhigh : q ≤ 0x20000000000000) :
    units (e * 0x10000000000000 + q) = q * 2 ^ e := by
  unfold units
  dsimp only
  rcases Nat.lt_or_eq_of_le hhigh with hlt | rfl
  · have hexponent : (e * 0x10000000000000 + q) / 0x10000000000000 = e + 1 := by omega
    have hfraction : 0x10000000000000 + (e * 0x10000000000000 + q) % 0x10000000000000 = q := by
      omega
    rw [hexponent, hfraction, if_neg (Nat.succ_ne_zero e), Nat.add_sub_cancel]
  · have hexponent : (e * 0x10000000000000 + 0x20000000000000) / 0x10000000000000 = e + 2 := by
      omega
    have hfraction : (e * 0x10000000000000 + 0x20000000000000) % 0x10000000000000 = 0 := by omega
    rw [hexponent, hfraction, if_neg (Nat.succ_ne_zero _)]
    show 2 ^ 52 * 2 ^ (e + 1) = 2 ^ 53 * 2 ^ e
    ring

/-- A magnitude without an exponent is its own number of units. -/
theorem units_of_lt {m : Nat} (h : m < 0x10000000000000) : units m = m := by
  unfold units
  dsimp only
  rw [if_pos (Nat.div_eq_of_lt h), Nat.mod_eq_of_lt h]

/-- Every other magnitude is a significand at an exponent. -/
theorem exists_significand {m : Nat} (h : 0x10000000000000 ≤ m) :
    ∃ e q, 0x10000000000000 ≤ q ∧ q < 0x20000000000000 ∧ m = e * 0x10000000000000 + q :=
  ⟨m / 0x10000000000000 - 1, 0x10000000000000 + m % 0x10000000000000, by omega, by omega, by omega⟩

theorem units_strictMono : StrictMono units := by
  refine strictMono_nat_of_lt_succ fun m => ?_
  rcases Nat.lt_or_ge m 0x10000000000000 with hlt | hge
  · rw [units_of_lt hlt]
    rcases Nat.lt_or_eq_of_le (Nat.succ_le_of_lt hlt) with hlt' | heq
    · rw [units_of_lt hlt']
      exact Nat.lt_succ_self m
    · have hunits := units_add (e := 0) (q := m + 1) (Nat.le_of_eq heq.symm) (by omega)
      rw [Nat.zero_mul, Nat.zero_add] at hunits
      rw [hunits]
      show m < (m + 1) * 1
      omega
  · obtain ⟨e, q, hlow, hhigh, rfl⟩ := exists_significand hge
    rw [Nat.add_assoc, units_add hlow (Nat.le_of_lt hhigh),
      units_add (Nat.le_succ_of_le hlow) hhigh]
    exact Nat.mul_lt_mul_of_pos_right (Nat.lt_succ_self q) (Nat.two_pow_pos e)

/-! ## Rounding -/

/-- A multiple of the unit is not rounded. -/
theorem roundShift_mul (q s : Nat) : roundShift (q * Nat.pow 2 s) s = q := by
  have hunit : 0 < Nat.pow 2 s := Nat.two_pow_pos s
  unfold roundShift
  dsimp only
  rw [Nat.mul_mod_left, Nat.mul_div_cancel q hunit, Nat.mul_zero, if_pos hunit]

variable {n m q : Nat}

/-- Numbers of up to 53 bits have themselves as significands, shifted. -/
theorem significand_mul (h : n.log2 ≤ 52) :
    significand n * 2 ^ (n.log2 + 1022) = n * unitsPerOne := by
  rw [significand_of_small h]
  show n * 2 ^ (52 - n.log2) * 2 ^ (n.log2 + 1022) = n * unitsPerOne
  rw [Nat.mul_assoc, ← pow_mul_unitsPerOne (a := 0) (by omega), Nat.pow_zero, Nat.one_mul]

/-- Larger ones are rounded to as many units as a last bit of their significands stands for. -/
theorem significand_eq_roundShift (h : ¬n.log2 ≤ 52) :
    significand n = roundShift n (n.log2 - 52) ∧
      2 ^ (n.log2 + 1022) = 2 ^ (n.log2 - 52) * unitsPerOne := by
  refine ⟨if_neg h, ?_⟩
  rw [pow_mul_unitsPerOne (b := 0) (c := n.log2 + 1022) (by omega), Nat.pow_zero, Nat.one_mul]

/-- No integer lies between a number and its significand. -/
theorem le_significand_of_le (h : q * 2 ^ (n.log2 + 1022) ≤ n * unitsPerOne) :
    q ≤ significand n := by
  by_cases hlog : n.log2 ≤ 52
  · rw [← significand_mul hlog] at h
    exact Nat.le_of_mul_le_mul_right h (Nat.two_pow_pos _)
  · obtain ⟨hround, hunit⟩ := significand_eq_roundShift hlog
    rw [hunit, ← Nat.mul_assoc] at h
    rw [hround]
    exact le_roundShift (Nat.le_of_mul_le_mul_right h unitsPerOne_pos)

theorem significand_le_of_le (h : n * unitsPerOne ≤ q * 2 ^ (n.log2 + 1022)) :
    significand n ≤ q := by
  by_cases hlog : n.log2 ≤ 52
  · rw [← significand_mul hlog] at h
    exact Nat.le_of_mul_le_mul_right h (Nat.two_pow_pos _)
  · obtain ⟨hround, hunit⟩ := significand_eq_roundShift hlog
    rw [hunit, ← Nat.mul_assoc] at h
    rw [hround]
    rcases Nat.lt_or_eq_of_le (Nat.le_of_mul_le_mul_right h unitsPerOne_pos) with hlt | heq
    · exact roundShift_le hlt
    · generalize n.log2 - 52 = s at heq ⊢
      rw [heq]
      exact Nat.le_of_eq (roundShift_mul q s)

/-- A magnitude that stands for at most a natural number is not above what the number rounds to. -/
theorem le_roundNat (hm : m ≤ infinityBits) (h : units m ≤ n * unitsPerOne) :
    m ≤ roundNat n := by
  rcases Nat.eq_zero_or_pos n with rfl | hpos
  · rw [Nat.zero_mul] at h
    exact units_strictMono.le_iff_le.1 h
  rw [roundNat_of_ne_zero (Nat.ne_of_gt hpos)]
  refine Nat.le_min.2 ⟨Nat.le_of_not_lt fun hlt => ?_, hm⟩
  have hlow := le_significand (Nat.ne_of_gt hpos)
  rcases Nat.lt_or_eq_of_le (significand_le (n := n)) with hhigh | hhigh
  · have hunits := units_strictMono.monotone (Nat.succ_le_of_lt hlt)
    rw [Nat.succ_eq_add_one, Nat.add_assoc, units_add (Nat.le_succ_of_le hlow) hhigh] at hunits
    exact absurd (le_significand_of_le (Nat.le_trans hunits h)) (Nat.not_succ_le_self _)
  · -- the number is below twice the power of two that it is rounded by
    have hunits := units_strictMono hlt
    rw [units_add hlow significand_le, hhigh] at hunits
    have hn : n * unitsPerOne < 2 ^ (n.log2 + 1) * unitsPerOne :=
      Nat.mul_lt_mul_of_pos_right Nat.lt_log2_self unitsPerOne_pos
    rw [pow_mul_unitsPerOne (b := 53) (c := n.log2 + 1022) (by omega)] at hn
    exact absurd (Nat.lt_of_lt_of_le hunits h) (Nat.not_lt_of_lt hn)

/-- A magnitude that stands for at least a natural number is not below what the number rounds
to. -/
theorem roundNat_le (h : n * unitsPerOne ≤ units m) : roundNat n ≤ m := by
  rcases Nat.eq_zero_or_pos n with rfl | hpos
  · exact Nat.zero_le m
  rw [roundNat_of_ne_zero (Nat.ne_of_gt hpos)]
  refine Nat.le_trans (Nat.min_le_left _ _) (Nat.le_of_not_lt fun hlt => ?_)
  have hlow := le_significand (Nat.ne_of_gt hpos)
  rcases Nat.lt_or_eq_of_le hlow with hgt | heq
  · obtain ⟨q, hq⟩ : ∃ q, significand n = q + 1 := ⟨significand n - 1, by omega⟩
    have hhigh := significand_le (n := n)
    have hunits := units_strictMono.monotone (Nat.le_of_lt_succ (hq ▸ hlt))
    rw [show ((n.log2 + 1022) * 0x10000000000000).add q
      = (n.log2 + 1022) * 0x10000000000000 + q from rfl, units_add (by omega) (by omega)] at hunits
    exact absurd (significand_le_of_le (Nat.le_trans h hunits)) (by omega)
  · have hunits := units_strictMono hlt
    rw [← heq, units_add (Nat.le_refl _) (by omega)] at hunits
    have hn : 2 ^ n.log2 * unitsPerOne ≤ n * unitsPerOne :=
      Nat.mul_le_mul_right _ (Nat.log2_self_le (Nat.ne_of_gt hpos))
    rw [pow_mul_unitsPerOne (b := 52) (c := n.log2 + 1022) (by omega)] at hn
    exact absurd (Nat.lt_of_le_of_lt h hunits) (Nat.not_lt.2 hn)

/-- Natural numbers up to the bound are not changed by rounding. -/
theorem units_roundNat (h : n ≤ exactBound) : units (roundNat n) = n * unitsPerOne := by
  rcases Nat.lt_or_eq_of_le h with hlt | rfl
  · rcases Nat.eq_zero_or_pos n with rfl | hpos
    · rw [Nat.zero_mul]
      rfl
    have hne := Nat.ne_of_gt hpos
    have hlog : n.log2 ≤ 52 := Nat.le_of_lt_succ ((Nat.log2_lt hne).2 hlt)
    rw [roundNat_of_small hne h, units_add (le_significand hne) significand_le,
      significand_mul hlog]
  · decide +kernel

/-! ## Values -/

variable {x y : Binary64} {i : Int}

theorem rank_of_negative (h : x.negative = true) : x.rank = -(x.magnitude : Int) - 1 :=
  if_pos h

theorem rank_of_not_negative (h : x.negative = false) : x.rank = x.magnitude :=
  if_neg (by simp [h])

theorem negative_iff : x.negative = true ↔ x.rank < 0 := by
  cases hx : x.negative with
  | true => exact iff_of_true rfl (by rw [rank_of_negative hx]; omega)
  | false => exact iff_of_false (by simp) (by rw [rank_of_not_negative hx]; omega)

theorem scaled_of_negative (h : x.negative = true) : x.scaled = -(units x.magnitude : Int) :=
  if_pos h

theorem scaled_of_not_negative (h : x.negative = false) : x.scaled = units x.magnitude :=
  if_neg (by simp [h])

theorem unitsPerOne_cast_pos : (0 : ℚ) < unitsPerOne :=
  Nat.cast_pos.2 unitsPerOne_pos

theorem le_value_iff : (i : ℚ) ≤ x.value ↔ i * unitsPerOne ≤ x.scaled := by
  rw [value, le_div_iff₀ unitsPerOne_cast_pos]
  exact_mod_cast Iff.rfl

theorem value_le_value_iff : x.value ≤ y.value ↔ x.scaled ≤ y.scaled := by
  rw [value, value, div_le_div_iff_of_pos_right unitsPerOne_cast_pos]
  exact Int.cast_le

/-- The order of numbers is that of their values. -/
theorem value_le_value (h : x.rank ≤ y.rank) : x.value ≤ y.value := by
  rw [value_le_value_iff]
  cases hx : x.negative <;> cases hy : y.negative <;>
    simp only [rank_of_negative, rank_of_not_negative, scaled_of_negative, scaled_of_not_negative,
      hx, hy] at h ⊢
  · exact Int.ofNat_le.2 (units_strictMono.monotone (by omega))
  · omega
  · omega
  · exact Int.neg_le_neg (Int.ofNat_le.2 (units_strictMono.monotone (by omega)))

theorem rank_ofInt (i : Int) :
    (ofInt i).rank = if i < 0 then -(roundNat i.natAbs : Int) - 1 else roundNat i.natAbs := by
  rw [ofInt, rank_ofMagnitude (roundNat_le_infinityBits _)]
  simp only [decide_eq_true_eq]

theorem rank_ofInt_negSucc (n : Nat) :
    (ofInt (Int.negSucc n)).rank = -(roundNat n.succ : Int) - 1 := by
  rw [rank_ofInt, if_pos (Int.negSucc_lt_zero n), Int.natAbs_negSucc]

theorem rank_ofInt_natCast (n : Nat) : (ofInt n).rank = roundNat n := by
  rw [rank_ofInt, if_neg (Int.not_lt.2 (Int.natCast_nonneg n)), Int.natAbs_natCast]

theorem negative_ofInt_negSucc (n : Nat) : (ofInt (Int.negSucc n)).negative = true := by
  rw [negative_iff, rank_ofInt_negSucc]
  omega

theorem not_negative_ofInt (n : Nat) : (ofInt n).negative = false := by
  rw [← Bool.not_eq_true, negative_iff, rank_ofInt_natCast]
  omega

/-- A negative number that is not below zero is minus zero. -/
theorem eq_minusZero_of_negative (hx : x.negative = true) (h : units x.magnitude = 0) :
    x = minusZero := by
  have hzero : x.isZero = true := by
    rw [isZero, decide_eq_true_eq]
    exact units_strictMono.injective h
  refine ((isZero_iff x).1 hzero).resolve_left ?_
  rintro rfl
  exact absurd hx (by decide)

/-- A number that is not below an integer does not come before it, but for minus zero. -/
theorem rank_ofInt_le_of_le (hfinite : x.isFinite) (h : (i : ℚ) ≤ x.value)
    (hne : ¬(i = 0 ∧ x = minusZero)) : (ofInt i).rank ≤ x.rank := by
  have hmagnitude : x.magnitude ≤ infinityBits := Nat.le_of_lt (of_decide_eq_true hfinite)
  rw [le_value_iff] at h
  cases i with
  | ofNat n =>
      rw [Int.ofNat_eq_natCast, ← Int.natCast_mul] at h
      rw [Int.ofNat_eq_natCast, rank_ofInt_natCast]
      cases hx : x.negative with
      | true =>
          rw [scaled_of_negative hx] at h
          have hunits : units x.magnitude = 0 := by omega
          have hn : n * unitsPerOne = 0 := by omega
          refine absurd ⟨?_, eq_minusZero_of_negative hx hunits⟩ hne
          exact congrArg Int.ofNat ((Nat.mul_eq_zero.1 hn).resolve_right unitsPerOne_pos.ne')
      | false =>
          rw [scaled_of_not_negative hx] at h
          rw [rank_of_not_negative hx]
          exact Int.ofNat_le.2 (roundNat_le (Int.ofNat_le.1 h))
  | negSucc n =>
      rw [Int.negSucc_eq, Int.neg_mul, ← Nat.cast_succ, ← Int.natCast_mul] at h
      rw [rank_ofInt_negSucc]
      cases hx : x.negative with
      | true =>
          rw [scaled_of_negative hx] at h
          rw [rank_of_negative hx]
          have := le_roundNat hmagnitude (Int.ofNat_le.1 (Int.neg_le_neg_iff.1 h))
          omega
      | false =>
          rw [rank_of_not_negative hx]
          omega

/-- A number that is below an integer does not come after it. -/
theorem rank_le_rank_ofInt (hfinite : x.isFinite) (h : x.value < i) : x.rank ≤ (ofInt i).rank := by
  have hmagnitude : x.magnitude ≤ infinityBits := Nat.le_of_lt (of_decide_eq_true hfinite)
  rw [← not_le, le_value_iff, not_le] at h
  cases i with
  | ofNat n =>
      rw [Int.ofNat_eq_natCast, ← Int.natCast_mul] at h
      rw [Int.ofNat_eq_natCast, rank_ofInt_natCast]
      cases hx : x.negative with
      | true =>
          rw [rank_of_negative hx]
          omega
      | false =>
          rw [scaled_of_not_negative hx] at h
          rw [rank_of_not_negative hx]
          exact Int.ofNat_le.2 (le_roundNat hmagnitude (Int.ofNat_lt.1 h).le)
  | negSucc n =>
      rw [Int.negSucc_eq, Int.neg_mul, ← Nat.cast_succ, ← Int.natCast_mul] at h
      rw [rank_ofInt_negSucc]
      cases hx : x.negative with
      | true =>
          rw [scaled_of_negative hx] at h
          rw [rank_of_negative hx]
          have := roundNat_le (Int.ofNat_lt.1 (Int.neg_lt_neg_iff.1 h)).le
          omega
      | false =>
          rw [scaled_of_not_negative hx] at h
          omega

/-- Integers up to the bound are not changed by rounding. -/
theorem value_ofInt (h : i.natAbs ≤ exactBound) : (ofInt i).value = i := by
  have hunits : units (ofInt i).magnitude = i.natAbs * unitsPerOne := by
    rw [magnitude_ofInt, units_roundNat h]
  have hscaled : (ofInt i).scaled = i * unitsPerOne := by
    cases i with
    | ofNat n =>
        rw [scaled_of_not_negative (x := ofInt (.ofNat n)) (not_negative_ofInt n), hunits]
        exact Int.natCast_mul ..
    | negSucc n =>
        rw [scaled_of_negative (negative_ofInt_negSucc n), hunits,
          Int.natCast_mul, ← Int.neg_mul]
        rfl
  rw [value, hscaled, Int.cast_mul, Int.cast_natCast,
    mul_div_cancel_right₀ _ unitsPerOne_cast_pos.ne']

end Binary64

end LiveQuery
