/-!
# Ranges of characters

A set of characters is written as the increasing list of the code points at which
membership changes, the first of them being the first member. The sets that are written
so in other modules, and the case mappings, are those of Unicode 17.
-/

namespace LiveQuery.Text

/-- Membership in the set with the given bounds: an odd number of them is reached. -/
def inRanges (bounds : List Nat) (c : Char) : Bool :=
  (bounds.takeWhile (· ≤ c.toNat)).length % 2 = 1

/-- Before the first bound there are no members. -/
theorem inRanges_eq_false_of_lt {first : Nat} {bounds : List Nat} {c : Char}
    (h : c.toNat < first) : inRanges (first :: bounds) c = false := by
  have hle : ¬ (first ≤ c.toNat) := by omega
  simp [inRanges, hle]

end LiveQuery.Text
