import LiveQuery.Binary64
import LiveQuery.Text.Hex

/-!
# Double precision numbers in hexadecimal

A number is written by its bits in sixteen digits, and any not-a-number by the word for
it, which reads as the one without a sign and with the quiet bit alone.
-/

namespace LiveQuery.Binary64

/-- The not-a-number of a fresh computation. -/
def quietNaN : Binary64 :=
  ⟨0x7ff8000000000000⟩

def toHex (x : Binary64) : String :=
  if x.isNaN then "nan" else String.ofList (Text.paddedHex 16 x.bits.toNat)

def ofHex? (s : String) : Option Binary64 :=
  if s = "nan" then some quietNaN
  else if s.length = 16 then
    (Text.hexValue? s.toList).map fun n => ⟨UInt64.ofNat n⟩
  else none

end LiveQuery.Binary64
