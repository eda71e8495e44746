import LiveQuery.Decimal.Shortest

/-!
# Positional decimals

Numbers as texts. A decimal is written out in full, without an exponent: as many
zeros as it takes stand at its end or behind the point. A number in double precision
is written as its shortest decimal, with a sign also before zero.
-/

namespace LiveQuery

/-- The digits of a decimal with its point, and no point when there is no fraction. -/
def Decimal.positional (d : Decimal) : String :=
  let digits := Nat.toDigits 10 d.digits
  let point : Int := digits.length + d.exponent
  if 0 ≤ d.exponent then
    String.ofList (digits ++ List.replicate d.exponent.toNat '0')
  else if 0 < point then
    String.ofList (digits.take point.toNat ++ '.' :: digits.drop point.toNat)
  else
    String.ofList ('0' :: '.' :: List.replicate (-point).toNat '0' ++ digits)

/-- The text of a number. -/
def Binary64.toText (x : Binary64) : String :=
  if x.isNaN then "NaN"
  else
    let sign := if x.negative then "-" else ""
    if !x.isFinite then sign ++ "inf"
    else if x.isZero then sign ++ "0"
    else sign ++ (Decimal.shortest x.magnitude).positional

end LiveQuery
