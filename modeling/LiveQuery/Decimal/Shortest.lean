import LiveQuery.Binary64

/-!
# Shortest decimals

The shortest decimal of a finite positive number is the one with the fewest digits
that still reads back as that number; among those with equally many digits the
nearest, and the upper one of two that are equally near.

Each number is the rounding of an interval of reals. On the grid of the multiples of
a power of ten only the two neighbours of the number matter: if any point of the grid
lies in the interval, one of them does. So the grids are tried from coarse to fine.
-/

namespace LiveQuery

/-- The decimal `digits · 10 ^ exponent`. -/
structure Decimal where
  digits : Nat
  exponent : Int
deriving DecidableEq

/-- A positive number `mid / unit` together with the reals that round to it, which
lie from `low / unit` to `high / unit`, the ends included or not. -/
structure Roundings where
  low : Nat
  mid : Nat
  high : Nat
  unit : Nat
  closed : Bool

namespace Roundings

/-- The reals that round to the finite positive number of the given magnitude. -/
def ofMagnitude (magnitude : Nat) : Roundings :=
  let fraction := magnitude % 0x10000000000000
  let exponent := magnitude / 0x10000000000000
  let significand := if exponent = 0 then fraction else 0x10000000000000 + fraction
  let power := max exponent 1
  let scale := Nat.pow 2 (power - 1)
  { low := (4 * significand - if fraction = 0 && 1 < exponent then 1 else 2) * scale
    mid := 4 * significand * scale
    high := (4 * significand + 2) * scale
    unit := Nat.pow 2 1076
    closed := significand % 2 = 0 }

/-- The same reals counted in units of `10 ^ k`. -/
def rescale (r : Roundings) (k : Int) : Roundings :=
  { r with
    low := r.low * Nat.pow 10 (-k).toNat
    mid := r.mid * Nat.pow 10 (-k).toNat
    high := r.high * Nat.pow 10 (-k).toNat
    unit := r.unit * Nat.pow 10 k.toNat }

/-- Whether an integer rounds to the number. -/
def holds (r : Roundings) (n : Nat) : Bool :=
  if r.closed then r.low ≤ n * r.unit && n * r.unit ≤ r.high
  else r.low < n * r.unit && n * r.unit < r.high

/-- The integer that rounds to the number, of two the nearer, of two as near the upper. -/
def nearest? (r : Roundings) : Option Nat :=
  let below := r.mid / r.unit
  match r.holds below, r.holds (below + 1) with
  | true, true => if 2 * (r.mid % r.unit) < r.unit then some below else some (below + 1)
  | true, false => some below
  | false, true => some (below + 1)
  | false, false => none

/-- The first grid at or below `10 ^ k` with a decimal of the number, among the next `n`. -/
def search (r : Roundings) : Nat → Int → Decimal
  | 0, k => ⟨(r.rescale k).mid / (r.rescale k).unit, k⟩
  | n + 1, k =>
      match (r.rescale k).nearest? with
      | some digits => ⟨digits, k⟩
      | none => r.search n (k - 1)

end Roundings

/-- The exponent of a power of ten no coarser than needed, and above the number up to
a part in a hundred thousand: `0.30103` is the logarithm of two, rounded up. -/
def Decimal.ceiling (magnitude : Nat) : Int :=
  ((magnitude / 0x10000000000000 : Nat) - 1022 : Int) * 30103 / 100000 + 1

/-- The shortest decimal of the finite positive number of the given magnitude. -/
def Decimal.shortest (magnitude : Nat) : Decimal :=
  (Roundings.ofMagnitude magnitude).search 25 (Decimal.ceiling magnitude)

end LiveQuery
