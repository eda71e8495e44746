import LiveQuery.Scalar

/-!
# The order of scalars

Kinds are ordered first: missing values, null, booleans, numbers, texts, rows. Two
integers compare as integers, two floats by their place in the total order, an
integer and a float in double precision, the integer first when they tie. Rows
compare field by field, the name before the value.

**Results.** `compare` is a total order, and only equal scalars tie: the instances
of `Std.TransOrd` and `Std.LawfulEqOrd` for `Scalar` and `Row`.
-/

namespace LiveQuery

namespace Scalar

/-- The place of a value's kind; integers and floats are of one kind. -/
def kindRank : Scalar → Nat
  | undefined => 0
  | null => 1
  | bool _ => 2
  | int _ => 3
  | float _ => 3
  | text _ => 4
  | record _ => 5

end Scalar

mutual

def Scalar.cmp : Scalar → Scalar → Ordering
  | .bool a, .bool b => compare a b
  | .int i, .int j => compare i.toInt j.toInt
  | .float x, .float y => compare x y
  | .int i, .float y => (compare (Binary64.ofInt i.toInt) y).then .lt
  | .float x, .int j => (compare x (Binary64.ofInt j.toInt)).then .gt
  | .text s, .text t => compare s t
  | .record r, .record s => Row.cmp r s
  | a, b => compare a.kindRank b.kindRank

def Row.cmp : Row → Row → Ordering
  | .nil, .nil => .eq
  | .nil, .cons .. => .lt
  | .cons .., .nil => .gt
  | .cons name value rest, .cons name' value' rest' =>
      (compare name name').then ((Scalar.cmp value value').then (Row.cmp rest rest'))

end

instance : Ord Scalar := ⟨Scalar.cmp⟩

instance : Ord Row := ⟨Row.cmp⟩

/-! ## Comparing without descending into rows -/

namespace Scalar

/-- The number's place in double precision, and the truth of a boolean. -/
def weight : Scalar → Int
  | bool b => if b then 1 else 0
  | int i => (Binary64.ofInt i.toInt).rank
  | float x => x.rank
  | _ => 0

/-- A float comes after the integers of its weight. -/
def lateness : Scalar → Nat
  | float _ => 1
  | _ => 0

def exact : Scalar → Int
  | int i => i.toInt
  | _ => 0

def letters : Scalar → String
  | text s => s
  | _ => ""

/-- The order of scalars in which all rows tie. -/
def shallow : Scalar → Scalar → Ordering :=
  compareLex (compareOn kindRank)
    (compareLex (compareOn weight)
      (compareLex (compareOn lateness)
        (compareLex (compareOn exact) (compareOn letters))))

/-- The comparison of two rows; all else ties. -/
def inner : Scalar → Scalar → Ordering
  | record r, record s => Row.cmp r s
  | _, _ => .eq

instance : Std.TransCmp shallow :=
  inferInstanceAs (Std.TransCmp (compareLex _ _))

theorem compare_weight_then_exact (i j : Int) :
    (compare (Binary64.ofInt i).rank (Binary64.ofInt j).rank).then (compare i j)
      = compare i j := by
  rcases Int.lt_trichotomy i j with h | h | h
  · have hle := Binary64.rank_ofInt_le (Int.le_of_lt h)
    have hij : compare i j = .lt := Std.compare_eq_lt.2 h
    rw [hij]
    rcases Int.lt_or_eq_of_le hle with hlt | heq
    · rw [Std.compare_eq_lt.2 hlt]; rfl
    · rw [heq, Std.compare_self]; rfl
  · subst h
    rw [Std.compare_self]; rfl
  · have hle := Binary64.rank_ofInt_le (Int.le_of_lt h)
    have hij : compare i j = .gt := Std.compare_eq_gt.2 h
    rw [hij]
    rcases Int.lt_or_eq_of_le hle with hlt | heq
    · rw [Std.compare_eq_gt.2 hlt]; rfl
    · rw [heq, Std.compare_self]; rfl

theorem shallow_int (i j : Int64) : shallow (.int i) (.int j) = compare i.toInt j.toInt := by
  simp only [shallow, compareLex, compareOn, kindRank, weight, lateness, exact, letters,
    Std.compare_self, Ordering.then_eq, Ordering.eq_then, compare_weight_then_exact]

theorem shallow_int_float (i : Int64) (y : Binary64) :
    shallow (.int i) (.float y) = (compare (Binary64.ofInt i.toInt) y).then .lt := by
  have hlate : compare (0 : Nat) 1 = .lt := rfl
  simp only [shallow, compareLex, compareOn, kindRank, weight, lateness, exact, letters,
    Std.compare_self, Ordering.then_eq, Ordering.eq_then, hlate]
  rfl

theorem shallow_float_int (x : Binary64) (j : Int64) :
    shallow (.float x) (.int j) = (compare x (Binary64.ofInt j.toInt)).then .gt := by
  have hlate : compare (1 : Nat) 0 = .gt := rfl
  simp only [shallow, compareLex, compareOn, kindRank, weight, lateness, exact, letters,
    Std.compare_self, Ordering.then_eq, Ordering.eq_then, hlate]
  rfl

theorem shallow_float (x y : Binary64) : shallow (.float x) (.float y) = compare x y := by
  simp only [shallow, compareLex, compareOn, kindRank, weight, lateness, exact, letters,
    Std.compare_self, Ordering.then_eq, Ordering.eq_then]
  rfl

theorem shallow_text (s t : String) : shallow (.text s) (.text t) = compare s t := by
  simp only [shallow, compareLex, compareOn, kindRank, weight, lateness, exact, letters,
    Std.compare_self, Ordering.eq_then]

/-- The order is the shallow one, refined by the order of the rows. -/
theorem cmp_eq_shallow_then_inner (a b : Scalar) :
    a.cmp b = (shallow a b).then (inner a b) := by
  cases a with
  | undefined => cases b <;> rfl
  | null => cases b <;> rfl
  | bool x =>
      cases b with
      | bool y => cases x <;> cases y <;> rfl
      | _ => rfl
  | int i =>
      cases b with
      | int j => exact (shallow_int i j).symm.trans Ordering.then_eq.symm
      | float y => exact (shallow_int_float i y).symm.trans Ordering.then_eq.symm
      | _ => rfl
  | float x =>
      cases b with
      | int j => exact (shallow_float_int x j).symm.trans Ordering.then_eq.symm
      | float y => exact (shallow_float x y).symm.trans Ordering.then_eq.symm
      | _ => rfl
  | text s =>
      cases b with
      | text t => exact (shallow_text s t).symm.trans Ordering.then_eq.symm
      | _ => rfl
  | record r => cases b <;> rfl

end Scalar

/-! ## Only equal values tie -/

mutual

theorem Scalar.eq_of_cmp (a b : Scalar) (h : a.cmp b = .eq) : a = b :=
  match a, b with
  | .undefined, .undefined => rfl
  | .null, .null => rfl
  | .bool _, .bool _ => congrArg Scalar.bool (Std.LawfulEqOrd.eq_of_compare h)
  | .int _, .int _ =>
      congrArg Scalar.int (Int64.toInt_inj.1 (Std.LawfulEqOrd.eq_of_compare h))
  | .float _, .float _ => congrArg Scalar.float (Std.LawfulEqOrd.eq_of_compare h)
  | .text _, .text _ => congrArg Scalar.text (Std.LawfulEqOrd.eq_of_compare h)
  | .record r, .record s => congrArg Scalar.record (Row.eq_of_cmp r s h)
  | .int _, .float _ => nomatch (Ordering.then_eq_eq.1 h).2
  | .float _, .int _ => nomatch (Ordering.then_eq_eq.1 h).2

theorem Row.eq_of_cmp (r s : Row) (h : r.cmp s = .eq) : r = s :=
  match r, s with
  | .nil, .nil => rfl
  | .cons name value rest, .cons name' value' rest' => by
      obtain ⟨hname, hmore⟩ := Ordering.then_eq_eq.1 h
      obtain ⟨hvalue, hrest⟩ := Ordering.then_eq_eq.1 hmore
      rw [Std.LawfulEqOrd.eq_of_compare hname, Scalar.eq_of_cmp value value' hvalue,
        Row.eq_of_cmp rest rest' hrest]

end

/-! ## The order is total -/

mutual

theorem Scalar.cmp_swap (a b : Scalar) : a.cmp b = (b.cmp a).swap := by
  rw [Scalar.cmp_eq_shallow_then_inner a b, Scalar.cmp_eq_shallow_then_inner b a,
    Ordering.swap_then, (Std.OrientedCmp.eq_swap : Scalar.shallow a b = (Scalar.shallow b a).swap)]
  congr 1
  cases a with
  | record r =>
      cases b with
      | record s => exact Row.cmp_swap r s
      | _ => rfl
  | _ => cases b <;> rfl

theorem Row.cmp_swap (r s : Row) : r.cmp s = (s.cmp r).swap :=
  match r, s with
  | .nil, .nil => rfl
  | .nil, .cons .. => rfl
  | .cons .., .nil => rfl
  | .cons name value rest, .cons name' value' rest' => by
      simp only [Row.cmp, Ordering.swap_then]
      rw [Std.OrientedOrd.eq_swap (a := name), Scalar.cmp_swap value value',
        Row.cmp_swap rest rest']

end

/-- The three comparisons of a chain `a`, `b`, `c` are those of an order. -/
structure Chained (ab bc ac : Ordering) : Prop where
  isLE : ab.isLE → bc.isLE → ac.isLE
  lt_left : ab = .lt → bc.isLE → ac = .lt
  lt_right : ab.isLE → bc = .lt → ac = .lt

theorem Chained.of_transOrd {α : Type} (cmp : α → α → Ordering) [Std.TransCmp cmp] (a b c : α) :
    Chained (cmp a b) (cmp b c) (cmp a c) where
  isLE := Std.TransCmp.isLE_trans
  lt_left := Std.TransCmp.lt_of_lt_of_isLE
  lt_right := Std.TransCmp.lt_of_isLE_of_lt

theorem Chained.of_eq {ab bc ac : Ordering} (hab : ab = .eq) (hbc : bc = .eq) (hac : ac = .eq) :
    Chained ab bc ac where
  isLE _ _ := by rw [hac]; rfl
  lt_left h := by rw [hab] at h; cases h
  lt_right _ h := by rw [hbc] at h; cases h

theorem Chained.gt_left (bc ac : Ordering) : Chained .gt bc ac where
  isLE h := by cases h
  lt_left h := by cases h
  lt_right h := by cases h

theorem Chained.gt_right (ab ac : Ordering) : Chained ab .gt ac where
  isLE _ h := by cases h
  lt_left _ h := by cases h
  lt_right _ h := by cases h

theorem Chained.to_lt (ab bc : Ordering) : Chained ab bc .lt where
  isLE _ _ := rfl
  lt_left _ _ := rfl
  lt_right _ _ := rfl

/-- A chain of lexicographic comparisons. -/
theorem Chained.andThen {ab bc ac ab' bc' ac' : Ordering}
    (h : Chained ab bc ac) (h' : ab = .eq → bc = .eq → Chained ab' bc' ac') :
    Chained (ab.then ab') (bc.then bc') (ac.then ac') := by
  obtain ⟨hle, hleft, hright⟩ := h
  cases ab with
  | gt => exact .gt_left _ _
  | lt =>
      cases bc with
      | gt => exact .gt_right _ _
      | lt => rw [hleft rfl rfl]; exact .to_lt _ _
      | eq => rw [hleft rfl rfl]; exact .to_lt _ _
  | eq =>
      cases bc with
      | gt => exact .gt_right _ _
      | lt => rw [hright rfl rfl]; exact .to_lt _ _
      | eq =>
          cases ac with
          | lt => exact .to_lt _ _
          | eq => exact h' rfl rfl
          | gt => exact absurd (hle rfl rfl) (by decide)

mutual

theorem Scalar.cmp_chained (a b c : Scalar) : Chained (a.cmp b) (b.cmp c) (a.cmp c) := by
  rw [Scalar.cmp_eq_shallow_then_inner a b, Scalar.cmp_eq_shallow_then_inner b c,
    Scalar.cmp_eq_shallow_then_inner a c]
  apply (Chained.of_transOrd Scalar.shallow a b c).andThen
  intro hab hbc
  cases a with
  | record r =>
      cases b with
      | record s =>
          cases c with
          | record t => exact Row.cmp_chained r s t
          | _ => nomatch hbc
      | _ => nomatch hab
  | _ => exact .of_eq rfl (by cases b <;> first | rfl | nomatch hab) rfl

theorem Row.cmp_chained (r s t : Row) : Chained (r.cmp s) (s.cmp t) (r.cmp t) :=
  match r, s, t with
  | .nil, .nil, .nil => .of_eq rfl rfl rfl
  | .nil, .nil, .cons .. => .to_lt _ _
  | .nil, .cons .., .nil => .gt_right _ _
  | .nil, .cons .., .cons .. => .to_lt _ _
  | .cons .., .nil, _ => .gt_left _ _
  | .cons .., .cons .., .nil => .gt_right _ _
  | .cons name value rest, .cons name' value' rest', .cons name'' value'' rest'' =>
      (Chained.of_transOrd compare name name' name'').andThen fun _ _ =>
        (Scalar.cmp_chained value value' value'').andThen fun _ _ =>
          Row.cmp_chained rest rest' rest''

end

instance : Std.TransOrd Scalar where
  eq_swap := Scalar.cmp_swap _ _
  isLE_trans := (Scalar.cmp_chained _ _ _).isLE

instance : Std.TransOrd Row where
  eq_swap := Row.cmp_swap _ _
  isLE_trans := (Row.cmp_chained _ _ _).isLE

instance : Std.LawfulEqOrd Scalar where
  eq_of_compare h := Scalar.eq_of_cmp _ _ h

instance : Std.LawfulEqOrd Row where
  eq_of_compare h := Row.eq_of_cmp _ _ h

end LiveQuery
