import LiveQuery.Json
import LiveQuery.Proofs.Row

/-!
# Values that go through JSON

A value in JSON, read again, is the value with null in place of all that JSON cannot say, at every
depth. The fields of a row are read in the order of their names, so each is added after those that
are there already.

**Results.** `Scalar.reads_back`.
-/

namespace LiveQuery

/-- An entry whose key is above all others has its place at the end. -/
theorem OrdMap.place_eq_append {κ ν : Type} [Ord κ] [Std.OrientedOrd κ] {entries : List (κ × ν)}
    {key : κ} (h : ∀ entry ∈ entries, compare entry.1 key = .lt) (value : ν) :
    OrdMap.place key value entries = entries ++ [(key, value)] := by
  induction entries with
  | nil => rfl
  | cons entry rest ih =>
      have hgt : compare key entry.1 = .gt :=
        Std.OrientedCmp.gt_of_lt (h entry List.mem_cons_self)
      unfold place
      rw [hgt]
      exact congrArg (entry :: ·) (ih fun other hother => h other (List.mem_cons_of_mem _ hother))

/-- Whether entries are in order depends on their keys only. -/
theorem Increasing.of_keys {κ ν ν' : Type} [Ord κ] {entries : List (κ × ν)}
    {entries' : List (κ × ν')} (h : Increasing entries)
    (hkeys : entries'.map Prod.fst = entries.map Prod.fst) : Increasing entries' := by
  have hmap : (entries.map Prod.fst).Pairwise fun a b => compare a b = .lt :=
    List.pairwise_map.2 h
  rw [← hkeys] at hmap
  exact List.pairwise_map.1 hmap

theorem Row.toList_injective {row row' : Row} (h : row.toList = row'.toList) : row = row' :=
  match row, row' with
  | .nil, .nil => rfl
  | .cons .., .cons .. => by
      simp only [Row.toList_cons, List.cons.injEq, Prod.mk.injEq] at h
      rw [h.1.1, h.1.2, Row.toList_injective h.2]

/-! ## What JSON can say -/

mutual

/-- A value with null in place of what JSON cannot say: missing values, infinities and what is not
a number. -/
def Scalar.nulled : Scalar → Scalar
  | .undefined => .null
  | .float x => if x.isFinite then .float x else .null
  | .record row => .record row.nulled
  | value => value

/-- A row with null in place of what JSON cannot say. -/
def Row.nulled : Row → Row
  | .nil => .nil
  | .cons name value rest => .cons name value.nulled rest.nulled

end

namespace Scalar

/-- A value is another one, or occurs in a field of it. -/
inductive Within (a : Scalar) : Scalar → Prop
  | self : Within a a
  | field {row : Row} {name : String} {value : Scalar} (mem : (name, value) ∈ row.toList)
      (within : Within a value) : Within a (.record row)

/-- JSON can say all that occurs in a value. -/
structure Sayable (value : Scalar) : Prop where
  defined : ¬Within .undefined value
  finite : ∀ x, Within (.float x) value → x.isFinite

/-- All rows that occur in a value have their names in increasing order, as insertion leaves them. -/
def Ordered (value : Scalar) : Prop :=
  ∀ row, Within (.record row) value → row.Ordered

theorem Sayable.of_field {row : Row} (h : (record row).Sayable) {field : String × Scalar}
    (hfield : field ∈ row.toList) : field.2.Sayable where
  defined hwithin := h.defined (.field hfield hwithin)
  finite x hwithin := h.finite x (.field hfield hwithin)

theorem Ordered.of_field {row : Row} (h : (record row).Ordered) {field : String × Scalar}
    (hfield : field ∈ row.toList) : field.2.Ordered :=
  fun inner hwithin => h inner (.field hfield hwithin)

theorem ordered_of_not_record {value : Scalar} (h : ∀ row, value ≠ .record row) :
    value.Ordered := by
  intro row hwithin
  cases hwithin with
  | self => exact absurd rfl (h row)
  | field => exact absurd rfl (h _)

theorem ordered_record {row : Row} (hrow : row.Ordered)
    (hfields : ∀ field ∈ row.toList, field.2.Ordered) : (record row).Ordered := by
  intro inner hwithin
  cases hwithin with
  | self => exact hrow
  | field mem within => exact hfields _ mem inner within

end Scalar

/-! ## Nulls -/

theorem Row.toList_nulled (row : Row) :
    row.nulled.toList = row.toList.map fun field => (field.1, field.2.nulled) :=
  match row with
  | .nil => rfl
  | .cons _ _ rest => congrArg _ (Row.toList_nulled rest)

namespace Scalar

theorem nulled_ne_undefined (value : Scalar) : value.nulled ≠ .undefined := by
  cases value with
  | float x =>
      unfold nulled
      split <;> nofun
  | _ => nofun

theorem isFinite_of_nulled_eq {value : Scalar} {x : Binary64} (h : value.nulled = .float x) :
    x.isFinite := by
  cases value with
  | float y =>
      unfold nulled at h
      split at h
      next hfinite =>
        cases h
        exact hfinite
      next => cases h
  | _ => cases h

theorem exists_of_nulled_eq_record {value : Scalar} {row : Row} (h : value.nulled = .record row) :
    ∃ row', value = .record row' ∧ row = row'.nulled := by
  cases value with
  | record row' =>
      cases h
      exact ⟨row', rfl, rfl⟩
  | float x =>
      unfold nulled at h
      split at h <;> cases h
  | _ => cases h

/-- What occurs in a value with nulls is what occurred in the value, with nulls. -/
theorem exists_within_of_nulled {a value : Scalar} (h : Within a value.nulled) :
    ∃ b, Within b value ∧ a = b.nulled := by
  generalize hvalue : value.nulled = nulled at h
  induction h generalizing value with
  | self => exact ⟨value, .self, hvalue.symm⟩
  | field mem within ih =>
      obtain ⟨row, rfl, rfl⟩ := exists_of_nulled_eq_record hvalue
      rw [Row.toList_nulled] at mem
      obtain ⟨field, hfield, heq⟩ := List.mem_map.1 mem
      obtain ⟨b, hb, ha⟩ := ih (congrArg Prod.snd heq)
      exact ⟨b, .field hfield hb, ha⟩

theorem sayable_nulled (value : Scalar) : value.nulled.Sayable where
  defined hwithin := by
    obtain ⟨b, -, hb⟩ := exists_within_of_nulled hwithin
    exact nulled_ne_undefined b hb.symm
  finite x hwithin := by
    obtain ⟨b, -, hb⟩ := exists_within_of_nulled hwithin
    exact isFinite_of_nulled_eq hb.symm

end Scalar

mutual

theorem Scalar.Sayable.nulled_eq : (value : Scalar) → value.Sayable → value.nulled = value
  | .undefined, h => absurd .self h.defined
  | .null, _ => rfl
  | .bool _, _ => rfl
  | .int _, _ => rfl
  | .float x, h => if_pos (h.finite x .self)
  | .text _, _ => rfl
  | .record row, h => congrArg Scalar.record (Row.nulled_eq row fun _ hfield => h.of_field hfield)

theorem Row.nulled_eq :
    (row : Row) → (∀ field ∈ row.toList, field.2.Sayable) → row.nulled = row
  | .nil, _ => rfl
  | .cons name value rest, h => by
      have hvalue := Scalar.Sayable.nulled_eq value (h (name, value) List.mem_cons_self)
      have hrest := Row.nulled_eq rest fun field hfield => h field (List.mem_cons_of_mem _ hfield)
      rw [Row.nulled, hvalue, hrest]

end

/-- A value with nulls is the same just if JSON can say it. -/
theorem Scalar.nulled_eq_iff (value : Scalar) : value.nulled = value ↔ value.Sayable :=
  ⟨fun h => h ▸ value.sayable_nulled, Scalar.Sayable.nulled_eq value⟩

/-! ## Reading back -/

theorem Scalar.ofInt_toInt (i : Int64) : Scalar.ofInt i.toInt = .int i := by
  rw [ofInt, ofInt?, if_pos ⟨i.le_toInt, i.toInt_lt⟩, Option.getD_some, Int64.ofInt_toInt]

/-- A value that is not missing, with a name above all others, becomes the last field. -/
theorem Row.toList_insert_last {row : Row} {name : String} {value : Scalar}
    (hvalue : value ≠ .undefined) (h : ∀ field ∈ row.toList, compare field.1 name = .lt) :
    (row.insert name value).toList = row.toList ++ [(name, value)] := by
  rw [Row.insert, Row.toList_put, OrdMap.place_eq_append h]
  exact hvalue

mutual

theorem Scalar.ofJson_ofScalar :
    (value : Scalar) → value.Ordered → Scalar.ofJson (Json.ofScalar value) = value.nulled
  | .undefined, _ => rfl
  | .null, _ => rfl
  | .bool _, _ => rfl
  | .int i, _ => Scalar.ofInt_toInt i
  | .float x, _ => by
      unfold Json.ofScalar Scalar.nulled
      split <;> rfl
  | .text _, _ => rfl
  | .record row, h => congrArg Scalar.record (Row.toList_injective
      (Row.toList_ofJsonFields .nil row (h row .self) fun _ hfield => h.of_field hfield))

/-- Fields that are read are added after those that are there. -/
theorem Row.toList_ofJsonFields (read : Row) : (row : Row) →
    Increasing (read.toList ++ row.toList) → (∀ field ∈ row.toList, field.2.Ordered) →
    (Row.ofJsonFields read (Json.fieldsOfRow row)).toList = read.toList ++ row.nulled.toList
  | .nil, _, _ => (List.append_nil _).symm
  | .cons name value rest, hincreasing, hordered => by
      have hvalue := Scalar.ofJson_ofScalar value (hordered (name, value) List.mem_cons_self)
      have hlast : (read.insert name value.nulled).toList
          = read.toList ++ [(name, value.nulled)] :=
        Row.toList_insert_last value.nulled_ne_undefined fun field hfield =>
          (List.pairwise_append.1 hincreasing).2.2 field hfield (name, value) List.mem_cons_self
      have hincreasing' : Increasing ((read.insert name value.nulled).toList ++ rest.toList) :=
        hincreasing.of_keys (by simp [hlast])
      have hrest := Row.toList_ofJsonFields (read.insert name value.nulled) rest hincreasing'
        fun field hfield => hordered field (List.mem_cons_of_mem _ hfield)
      rw [Json.fieldsOfRow, Row.ofJsonFields, hvalue, hrest, hlast, Row.nulled, Row.toList_cons,
        List.append_assoc, List.singleton_append]

end

/-! ## What is read -/

/-- A field that is inserted leaves the names in order, at every depth. -/
theorem Scalar.Ordered.insert {row : Row} {value : Scalar} (hrow : (record row).Ordered)
    (hvalue : value.Ordered) (name : String) : (record (row.insert name value)).Ordered := by
  refine ordered_record ((hrow row .self).insert name value) fun field hfield => ?_
  unfold Row.insert at hfield
  split at hfield
  · rw [Row.toList_erase] at hfield
    exact hrow.of_field ((OrdMap.remove_sublist name row.toList).subset hfield)
  · rw [Row.toList_put] at hfield
    rcases OrdMap.mem_place hfield with rfl | hold
    · exact hvalue
    · exact hrow.of_field hold

theorem Scalar.ordered_nil : (record .nil).Ordered :=
  ordered_record Row.ordered_nil nofun

mutual

/-- All rows that are read have their names in increasing order. -/
theorem Scalar.ordered_ofJson : (json : Json) → (Scalar.ofJson json).Ordered
  | .null => Scalar.ordered_of_not_record nofun
  | .bool _ => Scalar.ordered_of_not_record nofun
  | .int i => Scalar.ordered_of_not_record fun row => by
      unfold Scalar.ofJson Scalar.ofInt Scalar.ofInt?
      split <;> nofun
  | .float _ => Scalar.ordered_of_not_record nofun
  | .text _ => Scalar.ordered_of_not_record nofun
  | .array items => Row.ordered_ofJsonItems items 0 Scalar.ordered_nil
  | .object fields => Row.ordered_ofJsonFields fields Scalar.ordered_nil

theorem Row.ordered_ofJsonItems : (items : List Json) → {row : Row} → (i : Nat) →
    (Scalar.record row).Ordered → (Scalar.record (Row.ofJsonItems i row items)).Ordered
  | [], _, _, h => h
  | item :: rest, _, i, h =>
      Row.ordered_ofJsonItems rest (i + 1) (h.insert (Scalar.ordered_ofJson item) _)

theorem Row.ordered_ofJsonFields : (fields : List (String × Json)) → {row : Row} →
    (Scalar.record row).Ordered → (Scalar.record (Row.ofJsonFields row fields)).Ordered
  | [], _, h => h
  | (name, value) :: rest, _, h =>
      Row.ordered_ofJsonFields rest (h.insert (Scalar.ordered_ofJson value) name)

end

namespace Scalar

/-- A value whose rows are in order is read back with null in place of what JSON cannot say. So it
is read back unchanged just if JSON can say all of it, and what has been read back once is read
back unchanged. -/
theorem reads_back (value : Scalar) (h : value.Ordered) :
    ofJson (Json.ofScalar value) = value.nulled ∧
      (ofJson (Json.ofScalar value) = value ↔ value.Sayable) ∧
      ofJson (Json.ofScalar (ofJson (Json.ofScalar value))) = ofJson (Json.ofScalar value) := by
  have hread := ofJson_ofScalar value h
  refine ⟨hread, hread ▸ value.nulled_eq_iff, ?_⟩
  rw [ofJson_ofScalar _ (ordered_ofJson _), hread]
  exact value.nulled.nulled_eq_iff.2 value.sayable_nulled

/-- A row with a row without fields, and one in which two values are open next to minus zero. Some
names are like positions, and some values are an integer and a float of the same value. -/
def mixed (a b : Scalar) : Scalar :=
  .record (.cons "0" (.int 1) (.cons "1" (.float (.ofInt 1)) (.cons "empty" (.record .nil)
    (.cons "inner" (.record (.cons "a" a (.cons "b" b
      (.cons "zero" (.float ⟨0x8000000000000000⟩) .nil)))) .nil))))

theorem ordered_mixed {a b : Scalar} (ha : a.Ordered) (hb : b.Ordered) : (mixed a b).Ordered := by
  have hplain {x : Binary64} : (float x).Ordered := ordered_of_not_record nofun
  have hint {i : Int64} : (int i).Ordered := ordered_of_not_record nofun
  have houter : Increasing [("0", ()), ("1", ()), ("empty", ()), ("inner", ())] := by
    unfold Increasing
    decide
  have hinner : Increasing [("a", ()), ("b", ()), ("zero", ())] := by
    unfold Increasing
    decide
  refine ordered_record (houter.of_keys rfl) ?_
  simp only [Row.toList_cons, Row.toList_nil, List.forall_mem_cons, hplain, hint, ordered_nil,
    true_and]
  refine ⟨ordered_record (hinner.of_keys rfl) ?_, nofun⟩
  simp only [Row.toList_cons, Row.toList_nil, List.forall_mem_cons, hplain, ha, hb, true_and]
  nofun

/-- An infinity and a missing value are read back as nulls, and nulls as they are. -/
theorem reads_back_mixed :
    (mixed (.float ⟨0x7ff0000000000000⟩) .undefined).Ordered ∧
      ofJson (Json.ofScalar (mixed (.float ⟨0x7ff0000000000000⟩) .undefined)) = mixed .null .null ∧
      ¬(mixed (.float ⟨0x7ff0000000000000⟩) .undefined).Sayable ∧
      ofJson (Json.ofScalar (mixed .null .null)) = mixed .null .null := by
  have hordered := ordered_mixed (a := .float ⟨0x7ff0000000000000⟩) (b := .undefined)
    (ordered_of_not_record nofun) (ordered_of_not_record nofun)
  obtain ⟨hread, hsame, hagain⟩ := reads_back _ hordered
  have hnulled : (mixed (.float ⟨0x7ff0000000000000⟩) .undefined).nulled = mixed .null .null := by
    decide
  rw [hread, hnulled] at hagain
  refine ⟨hordered, hread.trans hnulled, fun hsayable => ?_, hagain⟩
  exact absurd (hnulled.symm.trans (hread.symm.trans (hsame.2 hsayable))) (by decide)

end Scalar

end LiveQuery
