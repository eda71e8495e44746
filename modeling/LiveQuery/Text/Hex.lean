/-!
# Base 16

Numbers are written in lower case and read in either case.
-/

namespace LiveQuery.Text

/-- The digits of a number in base 16. -/
def hex (n : Nat) : List Char :=
  Nat.toDigits 16 n

/-- The digits of a number in base 16, with zeros before them up to a width. -/
def paddedHex (width n : Nat) : List Char :=
  List.replicate (width - (hex n).length) '0' ++ hex n

/-- The value of a digit in base 16. -/
def hexDigit? (c : Char) : Option Nat :=
  if '0' ≤ c && c ≤ '9' then some (c.toNat - '0'.toNat)
  else if 'a' ≤ c && c ≤ 'f' then some (c.toNat - 'a'.toNat + 10)
  else if 'A' ≤ c && c ≤ 'F' then some (c.toNat - 'A'.toNat + 10)
  else none

/-- The number that digits in base 16 stand for. -/
def hexValue? (digits : List Char) : Option Nat :=
  digits.foldlM (fun n c => (hexDigit? c).map (16 * n + ·)) 0

end LiveQuery.Text
