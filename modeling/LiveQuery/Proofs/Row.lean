import LiveQuery.Proofs.Map

/-!
# Rows through their fields

A row that is made by inserting fields has its names in increasing order, and so each name once. On
such a row insertion does what it does on an ordered map.

**Results.** `Row.get?_insert`, and `Row.size_eq_one_iff`: what a single field is.
-/

namespace LiveQuery

namespace Row

variable {row : Row} {field name : String} {value : Scalar}

theorem get?_eq_lookup (row : Row) (field : String) :
    row.get? field = OrdMap.lookup field row.toList :=
  match row with
  | nil => rfl
  | cons name value rest => by
      simp only [get?, toList_cons, OrdMap.lookup, Std.LawfulEqOrd.compare_eq_iff_eq,
        eq_comm (a := field), get?_eq_lookup rest field]

theorem toList_put (row : Row) (field : String) (value : Scalar) :
    (row.put field value).toList = OrdMap.place field value row.toList :=
  match row with
  | nil => rfl
  | cons name old rest => by
      simp only [put, toList_cons, OrdMap.place]
      cases compare field name with
      | lt => rfl
      | eq => rfl
      | gt => exact congrArg _ (toList_put rest field value)

theorem toList_erase (row : Row) (field : String) :
    (row.erase field).toList = OrdMap.remove field row.toList :=
  match row with
  | nil => rfl
  | cons name value rest => by
      simp only [erase, toList_cons, OrdMap.remove, Std.LawfulEqOrd.compare_eq_iff_eq,
        eq_comm (a := field)]
      split
      · rfl
      · exact congrArg _ (toList_erase rest field)

/-- The names are in increasing order. -/
def Ordered (row : Row) : Prop :=
  Increasing row.toList

theorem ordered_nil : nil.Ordered :=
  List.Pairwise.nil

theorem Ordered.insert (h : row.Ordered) (field : String) (value : Scalar) :
    (row.insert field value).Ordered := by
  unfold Row.insert Ordered
  split
  · rw [toList_erase]
    exact OrdMap.increasing_remove h field
  · rw [toList_put]
    exact OrdMap.increasing_place h field _

/-- A field has the value that was inserted, unless that is missing. -/
theorem get?_insert (h : row.Ordered) :
    (row.insert field value).get? name
      = if name = field then (if value = .undefined then none else some value)
        else row.get? name := by
  unfold Row.insert
  split
  · rw [get?_eq_lookup, toList_erase, OrdMap.lookup_remove h, get?_eq_lookup]
    simp only [Std.LawfulEqOrd.compare_eq_iff_eq, if_true]
  next value hvalue =>
    rw [get?_eq_lookup, toList_put, OrdMap.lookup_place, get?_eq_lookup]
    simp only [Std.LawfulEqOrd.compare_eq_iff_eq, if_neg hvalue]

/-- A row has one field if just one name has a value. -/
theorem size_eq_one_iff (h : row.Ordered) :
    row.size = 1 ↔ ∃! name, (row.get? name).isSome := by
  cases row with
  | nil =>
      refine ⟨fun h => (nomatch h), ?_⟩
      rintro ⟨_, h, -⟩
      cases h
  | cons name value rest =>
      cases rest with
      | nil =>
          refine ⟨fun _ => ⟨name, by simp [get?], fun other hother => ?_⟩, fun _ => rfl⟩
          by_contra hne
          simp [get?, Ne.symm hne] at hother
      | cons name' value' rest =>
          constructor
          · intro hsize
            simp [size] at hsize
          · -- the first two names differ
            rintro ⟨only, -, honly⟩
            have hlt := (List.pairwise_cons.1 h).1 (name', value') List.mem_cons_self
            have hne : name ≠ name' := fun heq => by simp [heq] at hlt
            have hfirst := honly name (by simp [get?])
            have hsecond := honly name' (by simp [get?, hne])
            exact absurd (hfirst.trans hsecond.symm) hne

end Row

end LiveQuery
