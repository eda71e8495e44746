import LiveQuery.Hash

/-!
# Comparing, equality and hashing agree

Maps find a value by comparing, hash tables find it by its hash input. The two must
agree on which values are one: an integer and a float of the same size are two, so
are the zeros, and a not-a-number is itself.

**Prefixes.** A scalar's hash input ends by itself: followed by anything, it can be
read back, and so can the fields of a row once their number is known. The induction
is on the scalar and its fields together.

**Results.** `concordant`: for scalars, rows and keys, comparing is a total order, it
ties equal values only, and the hash inputs are equal exactly there.
-/

namespace LiveQuery

/-! ## Hash inputs can be read back -/

mutual

theorem Scalar.hashInput_append_inj (a b : Scalar) {s t : List HashWord}
    (h : a.hashInput ++ s = b.hashInput ++ t) : a = b ∧ s = t := by
  cases a <;> cases b <;>
    simp only [Scalar.hashInput, Scalar.kindIndex, Scalar.hashContent, List.cons_append,
      List.nil_append, List.cons.injEq, HashWord.kind.injEq, HashWord.flag.injEq,
      HashWord.int.injEq, HashWord.bits.injEq, HashWord.text.injEq, HashWord.length.injEq,
      reduceCtorEq, false_and, true_and, Nat.reduceEqDiff] at h
  case undefined.undefined => exact ⟨rfl, h⟩
  case null.null => exact ⟨rfl, h⟩
  case bool.bool => exact ⟨congrArg _ h.1, h.2⟩
  case int.int => exact ⟨congrArg _ h.1, h.2⟩
  case float.float x y =>
    cases x
    cases y
    exact ⟨congrArg (Scalar.float ⟨·⟩) h.1, h.2⟩
  case text.text => exact ⟨congrArg _ h.1, h.2⟩
  case record.record r r' =>
    obtain ⟨hrow, hrest⟩ := Row.hashFields_append_inj r r' h.1 h.2
    exact ⟨congrArg _ hrow, hrest⟩

theorem Row.hashFields_append_inj (r r' : Row) {s t : List HashWord} (hsize : r.size = r'.size)
    (h : r.hashFields ++ s = r'.hashFields ++ t) : r = r' ∧ s = t :=
  match r, r' with
  | .nil, .nil => ⟨rfl, h⟩
  | .nil, .cons .. => nomatch hsize
  | .cons .., .nil => nomatch hsize
  | .cons name value rest, .cons name' value' rest' => by
      simp only [Row.hashFields_cons, List.cons_append, List.append_assoc, List.cons.injEq,
        HashWord.text.injEq] at h
      obtain ⟨hvalue, hmore⟩ := Scalar.hashInput_append_inj value value' h.2
      obtain ⟨hrow, hrest⟩ := Row.hashFields_append_inj rest rest' (Nat.succ.inj hsize) hmore
      exact ⟨by rw [h.1, hvalue, hrow], hrest⟩

end

theorem Scalar.hashInput_injective {a b : Scalar} (h : a.hashInput = b.hashInput) : a = b :=
  (Scalar.hashInput_append_inj a b (congrArg (· ++ []) h)).1

theorem Row.hashInput_injective {r r' : Row} (h : r.hashInput = r'.hashInput) : r = r' := by
  obtain ⟨hsize, hfields⟩ := List.cons.inj h
  exact (Row.hashFields_append_inj r r' (HashWord.length.inj hsize)
    (congrArg (· ++ []) hfields)).1

theorem Scalar.flatMap_hashInput_injective {as bs : List Scalar} (hlength : as.length = bs.length)
    (h : as.flatMap Scalar.hashInput = bs.flatMap Scalar.hashInput) : as = bs := by
  induction as generalizing bs with
  | nil => exact (List.length_eq_zero_iff.1 hlength.symm).symm
  | cons a as ih =>
      cases bs with
      | nil => cases hlength
      | cons b bs =>
          obtain ⟨hhead, htail⟩ := Scalar.hashInput_append_inj a b h
          rw [hhead, ih (Nat.succ.inj hlength) htail]

theorem Key.hashInput_injective {k k' : Key} (h : k.hashInput = k'.hashInput) : k = k' := by
  obtain ⟨hlength, hparts⟩ := List.cons.inj h
  cases k
  cases k'
  exact congrArg Key.mk
    (Scalar.flatMap_hashInput_injective (HashWord.length.inj hlength) hparts)

/-! ## One order, one equality -/

/-- A comparison is a total order in which only equal values tie, and a hash input
tells values apart where the comparison does. -/
structure Concordant {α : Type} (cmp : α → α → Ordering) (hashInput : α → List HashWord) :
    Prop where
  swap (a b : α) : cmp a b = (cmp b a).swap
  isLE_trans (a b c : α) : (cmp a b).isLE → (cmp b c).isLE → (cmp a c).isLE
  lt_trans (a b c : α) : cmp a b = .lt → cmp b c = .lt → cmp a c = .lt
  eq_iff (a b : α) : cmp a b = .eq ↔ a = b
  hash_iff (a b : α) : cmp a b = .eq ↔ hashInput a = hashInput b

theorem Concordant.of_injective {α : Type} [Ord α] [Std.TransOrd α] [Std.LawfulEqOrd α]
    {hashInput : α → List HashWord}
    (h : ∀ a b, hashInput a = hashInput b → a = b) : Concordant compare hashInput where
  swap _ _ := Std.OrientedOrd.eq_swap
  isLE_trans _ _ _ := Std.TransCmp.isLE_trans
  lt_trans _ _ _ := Std.TransCmp.lt_trans
  eq_iff _ _ := Std.LawfulEqOrd.compare_eq_iff_eq
  hash_iff a b :=
    Std.LawfulEqOrd.compare_eq_iff_eq.trans ⟨congrArg hashInput, h a b⟩

/-- Comparing is a total order that agrees with equality and hashing, for scalars with
rows inside them to any depth, for rows, and for keys. -/
theorem concordant :
    Concordant Scalar.cmp Scalar.hashInput
      ∧ Concordant Row.cmp Row.hashInput
      ∧ Concordant (compare : Key → Key → Ordering) Key.hashInput := by
  have hscalar : Concordant (compare : Scalar → Scalar → Ordering) Scalar.hashInput :=
    .of_injective fun _ _ => Scalar.hashInput_injective
  have hrow : Concordant (compare : Row → Row → Ordering) Row.hashInput :=
    .of_injective fun _ _ => Row.hashInput_injective
  have hkey : Concordant (compare : Key → Key → Ordering) Key.hashInput :=
    .of_injective fun _ _ => Key.hashInput_injective
  exact ⟨hscalar, hrow, hkey⟩

/-- Integers that share a double, the zeros and a not-a-number keep apart. -/
example :
    Scalar.cmp (.int 9007199254740992) (.int 9007199254740993) = .lt
      ∧ Scalar.cmp (.int 9007199254740993) (.float (.ofInt 9007199254740992)) = .lt
      ∧ Scalar.cmp (.float ⟨0x8000000000000000⟩) (.float ⟨0⟩) = .lt
      ∧ Scalar.cmp (.float ⟨0x7ff8000000000000⟩) (.float ⟨0x7ff8000000000000⟩) = .eq := by
  decide +kernel

end LiveQuery
