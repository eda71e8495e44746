/-!
# Double precision numbers

A number is given by its 64 bits: a sign, a biased exponent of eleven bits and a
fraction of 52 bits. Equality is equality of the bits, so the two zeros differ
and a not-a-number equals itself.

**Order.** `rank` reads the bits as a signed magnitude, which orders all numbers
totally: negative not-a-numbers, minus infinity, …, `-0`, `0`, …, infinity,
positive not-a-numbers.

**Rounding.** `ofInt` rounds an integer to the nearest number, a half going to
the even neighbour. `rank_ofInt_le` says that rounding keeps the order.
-/

namespace LiveQuery

/-- A double precision number, by its bits. -/
structure Binary64 where
  bits : UInt64
deriving DecidableEq, Inhabited

namespace Binary64

/-- The bits of infinity; larger magnitudes are not numbers. -/
def infinityBits : Nat := 0x7ff0000000000000

/-- Exponent and fraction, without the sign. -/
def magnitude (x : Binary64) : Nat :=
  x.bits.toNat % 0x8000000000000000

/-- The sign bit, which a zero and a not-a-number have as well. -/
def negative (x : Binary64) : Bool :=
  0x8000000000000000 ≤ x.bits.toNat

/-- The number with the given sign and magnitude. -/
def ofMagnitude (negative : Bool) (magnitude : Nat) : Binary64 :=
  ⟨UInt64.ofNat (if negative then 0x8000000000000000 + magnitude else magnitude)⟩

def isNaN (x : Binary64) : Bool :=
  infinityBits < x.magnitude

def isFinite (x : Binary64) : Bool :=
  x.magnitude < infinityBits

/-- Either of the two zeros. -/
def isZero (x : Binary64) : Bool :=
  x.magnitude = 0

/-- The place of a number in the total order, as a signed magnitude. -/
def rank (x : Binary64) : Int :=
  if x.negative then -(x.magnitude : Int) - 1 else x.magnitude

instance : Ord Binary64 :=
  ⟨compareOn rank⟩

/-- Equality of values: the zeros agree, and a not-a-number agrees with nothing. -/
def sameValue (x y : Binary64) : Bool :=
  !x.isNaN && !y.isNaN && (x == y || (x.isZero && y.isZero))

/-! ## Arithmetic -/

def toFloat (x : Binary64) : Float :=
  Float.ofBits x.bits

def ofFloat (x : Float) : Binary64 :=
  ⟨x.toBits⟩

instance : Add Binary64 :=
  ⟨fun x y => ofFloat (x.toFloat + y.toFloat)⟩

instance : Sub Binary64 :=
  ⟨fun x y => ofFloat (x.toFloat - y.toFloat)⟩

instance : Mul Binary64 :=
  ⟨fun x y => ofFloat (x.toFloat * y.toFloat)⟩

instance : Div Binary64 :=
  ⟨fun x y => ofFloat (x.toFloat / y.toFloat)⟩

/-- The number with the other sign. -/
instance : Neg Binary64 :=
  ⟨fun x => ofMagnitude (!x.negative) x.magnitude⟩

/-! ## Rounding integers -/

/-- `n / 2 ^ s` rounded to the nearest integer, a half to the even one. -/
def roundShift (n s : Nat) : Nat :=
  let unit := Nat.pow 2 s
  let quotient := n / unit
  let rest := n % unit
  if 2 * rest < unit then quotient
  else if 2 * rest = unit then quotient + quotient % 2
  else quotient + 1

/-- The leading 53 bits of a number, rounded. -/
def significand (n : Nat) : Nat :=
  if n.log2 ≤ 52 then n * Nat.pow 2 (52 - n.log2) else roundShift n (n.log2 - 52)

/-- The magnitude nearest to a natural number, infinity when it is too large. -/
def roundNat (n : Nat) : Nat :=
  if n = 0 then 0 else min ((n.log2 + 1022) * 0x10000000000000 + significand n) infinityBits

/-- The number nearest to an integer. -/
def ofInt (i : Int) : Binary64 :=
  ofMagnitude (decide (i < 0)) (roundNat i.natAbs)

/-- The number nearest to a natural number. -/
def ofNat (n : Nat) : Binary64 :=
  ofInt n

/-! ## Rounding keeps the order -/

theorem roundShift_le_roundShift {n m : Nat} (h : n ≤ m) (s : Nat) :
    roundShift n s ≤ roundShift m s := by
  have hquotient : n / Nat.pow 2 s ≤ m / Nat.pow 2 s := Nat.div_le_div_right h
  have hn := Nat.div_add_mod n (Nat.pow 2 s)
  have hm := Nat.div_add_mod m (Nat.pow 2 s)
  unfold roundShift
  dsimp only
  rcases Nat.lt_or_eq_of_le hquotient with hlt | heq
  · split <;> split <;> (try split) <;> (try split) <;> omega
  · rw [heq] at hn ⊢
    split <;> split <;> (try split) <;> (try split) <;> omega

theorem roundShift_le {n s q : Nat} (h : n < q * Nat.pow 2 s) : roundShift n s ≤ q := by
  have hlt : n / Nat.pow 2 s < q := Nat.div_lt_of_lt_mul (by rwa [Nat.mul_comm])
  unfold roundShift
  dsimp only
  split
  · omega
  · split <;> omega

theorem le_roundShift {n s q : Nat} (h : q * Nat.pow 2 s ≤ n) : q ≤ roundShift n s := by
  have hle : q ≤ n / Nat.pow 2 s := (Nat.le_div_iff_mul_le (Nat.two_pow_pos s)).2 h
  unfold roundShift
  dsimp only
  split
  · exact hle
  · split <;> omega

theorem roundNat_of_ne_zero {n : Nat} (h : n ≠ 0) :
    roundNat n = min ((n.log2 + 1022) * 0x10000000000000 + significand n) infinityBits := by
  simp [roundNat, h]

theorem le_significand {n : Nat} (h : n ≠ 0) : 0x10000000000000 ≤ significand n := by
  have hlog := Nat.log2_self_le h
  unfold significand
  split
  next hle =>
    show 2 ^ 52 ≤ n * 2 ^ (52 - n.log2)
    calc 2 ^ 52 = 2 ^ n.log2 * 2 ^ (52 - n.log2) := by rw [← Nat.pow_add]; congr 1; omega
      _ ≤ n * 2 ^ (52 - n.log2) := Nat.mul_le_mul_right _ hlog
  next hgt =>
    apply le_roundShift
    show 2 ^ 52 * 2 ^ (n.log2 - 52) ≤ n
    rw [← Nat.pow_add]
    rwa [show 52 + (n.log2 - 52) = n.log2 by omega]

theorem significand_le {n : Nat} : significand n ≤ 0x20000000000000 := by
  have hlog : n < 2 ^ (n.log2 + 1) := Nat.lt_log2_self
  unfold significand
  split
  next hle =>
    show n * 2 ^ (52 - n.log2) ≤ 2 ^ 53
    calc n * 2 ^ (52 - n.log2) ≤ 2 ^ (n.log2 + 1) * 2 ^ (52 - n.log2) :=
          Nat.mul_le_mul_right _ (Nat.le_of_lt hlog)
      _ = 2 ^ 53 := by rw [← Nat.pow_add]; congr 1; omega
  next hgt =>
    apply roundShift_le
    show n < 2 ^ 53 * 2 ^ (n.log2 - 52)
    rw [← Nat.pow_add]
    rwa [show 53 + (n.log2 - 52) = n.log2 + 1 by omega]

theorem roundNat_le_roundNat {n m : Nat} (h : n ≤ m) : roundNat n ≤ roundNat m := by
  by_cases hn : n = 0
  · simp [hn, roundNat]
  have hm : m ≠ 0 := by omega
  rw [roundNat_of_ne_zero hn, roundNat_of_ne_zero hm]
  have hlog : n.log2 < m.log2 + 1 :=
    (Nat.pow_lt_pow_iff_right (by decide : 1 < 2)).1
      (Nat.lt_of_le_of_lt (Nat.le_trans (Nat.log2_self_le hn) h) Nat.lt_log2_self)
  have hraw : (n.log2 + 1022) * 0x10000000000000 + significand n
      ≤ (m.log2 + 1022) * 0x10000000000000 + significand m := by
    rcases Nat.lt_or_eq_of_le (Nat.le_of_lt_succ hlog) with hlt | heq
    · have hsn := significand_le (n := n)
      have hsm := le_significand hm
      omega
    · have hs : significand n ≤ significand m := by
        unfold significand
        rw [heq]
        split
        · exact Nat.mul_le_mul_right _ h
        · exact roundShift_le_roundShift h _
      omega
  omega

theorem roundNat_le_infinityBits (n : Nat) : roundNat n ≤ infinityBits := by
  unfold roundNat
  split
  · exact Nat.zero_le _
  · exact Nat.min_le_right _ _

theorem rank_ofMagnitude {negative : Bool} {m : Nat} (h : m ≤ infinityBits) :
    rank (ofMagnitude negative m) = if negative then -(m : Int) - 1 else m := by
  have hinf : infinityBits < 0x8000000000000000 := by decide
  cases negative with
  | false =>
      have hbits : (UInt64.ofNat m).toNat = m := by
        rw [UInt64.toNat_ofNat']; omega
      simp only [rank, ofMagnitude, Binary64.negative, magnitude, Bool.false_eq_true, if_false,
        hbits]
      have hlt : ¬ (0x8000000000000000 ≤ m) := by omega
      simp [hlt]
      omega
  | true =>
      have hbits :
          (UInt64.ofNat (0x8000000000000000 + m)).toNat = 0x8000000000000000 + m := by
        rw [UInt64.toNat_ofNat']; omega
      simp only [rank, ofMagnitude, Binary64.negative, magnitude, if_true, hbits]
      have hle : 0x8000000000000000 ≤ 0x8000000000000000 + m := by omega
      simp only [hle, decide_true, if_true]
      omega

/-- Rounding to double precision keeps the order of the integers. -/
theorem rank_ofInt_le {i j : Int} (h : i ≤ j) : rank (ofInt i) ≤ rank (ofInt j) := by
  unfold ofInt
  rw [rank_ofMagnitude (roundNat_le_infinityBits _), rank_ofMagnitude (roundNat_le_infinityBits _)]
  by_cases hi : i < 0 <;> by_cases hj : j < 0
  · have := roundNat_le_roundNat (show j.natAbs ≤ i.natAbs by omega)
    simp only [hi, hj, decide_true, if_true]
    omega
  · simp only [hi, hj, decide_true, decide_false, if_true, Bool.false_eq_true, if_false]
    omega
  · omega
  · have := roundNat_le_roundNat (show i.natAbs ≤ j.natAbs by omega)
    simp only [hi, hj, decide_false, Bool.false_eq_true, if_false]
    omega

/-! ## The order is total -/

theorem rank_injective {x y : Binary64} (h : rank x = rank y) : x = y := by
  have hx := x.bits.toNat_lt
  have hy := y.bits.toNat_lt
  have hbits : x.bits.toNat = y.bits.toNat := by
    unfold rank negative magnitude at h
    by_cases h1 : 0x8000000000000000 ≤ x.bits.toNat <;>
      by_cases h2 : 0x8000000000000000 ≤ y.bits.toNat <;>
      simp only [h1, h2, decide_true, decide_false, if_true, Bool.false_eq_true, if_false] at h <;>
      omega
  cases x
  cases y
  simpa [UInt64.toNat_inj] using hbits

instance : Std.TransOrd Binary64 :=
  inferInstanceAs (Std.TransCmp (compareOn rank))

instance : Std.LawfulEqOrd Binary64 where
  eq_of_compare h := rank_injective (Std.LawfulEqOrd.eq_of_compare h)

end Binary64

end LiveQuery
