import LiveQuery.Proofs.Accumulator
import LiveQuery.Proofs.Evaluator
import LiveQuery.Proofs.Row

/-!
# Missing values stay outside of rows

While expressions are evaluated values are missing everywhere: fields that a row does not have,
sources that join nothing, functions of what they do not take. But what is missing is missing as a
whole, and a selection leaves it out. So the rows that are made of complete rows and literals are
complete.

**Results.** `Evaluator.Supplied.yields_eval`: a value is missing or complete.
`Evaluator.Supplied.yields_project`: an output row is complete.
`Accumulator.Clean.complete_value`: so is the value of an aggregate.
-/

namespace LiveQuery

mutual

/-- Nothing is missing in a value, at any depth. -/
def Scalar.Complete : Scalar → Prop
  | .undefined => False
  | .record row => row.Complete
  | _ => True

/-- Nothing is missing in a row, at any depth. -/
def Row.Complete : Row → Prop
  | .nil => True
  | .cons _ value rest => value.Complete ∧ rest.Complete

end

mutual

/-- Whether a value is complete can be computed. -/
def Scalar.decideComplete : (value : Scalar) → Decidable value.Complete
  | .undefined => inferInstanceAs (Decidable False)
  | .null => inferInstanceAs (Decidable True)
  | .bool _ => inferInstanceAs (Decidable True)
  | .int _ => inferInstanceAs (Decidable True)
  | .float _ => inferInstanceAs (Decidable True)
  | .text _ => inferInstanceAs (Decidable True)
  | .record row => row.decideComplete

/-- Whether a row is complete can be computed. -/
def Row.decideComplete : (row : Row) → Decidable row.Complete
  | .nil => inferInstanceAs (Decidable True)
  | .cons _ value rest =>
      have := value.decideComplete
      have := rest.decideComplete
      inferInstanceAs (Decidable (_ ∧ _))

end

instance (value : Scalar) : Decidable value.Complete := value.decideComplete

instance (row : Row) : Decidable row.Complete := row.decideComplete

/-- A value is missing as a whole, or nothing is missing in it. -/
def Scalar.Clean (value : Scalar) : Prop :=
  value = .undefined ∨ value.Complete

/-- All rows are complete. -/
def Rows.Complete (rows : Rows) : Prop :=
  ∀ key row, rows.get? key = some row → row.Complete

/-- What is bound in a frame, and its aggregates, are missing or complete. -/
structure Frame.Clean (frame : Frame) : Prop where
  env : ∀ value ∈ frame.env, value.Clean
  aggregates : ∀ values, frame.aggregates = some values → ∀ entry ∈ values, entry.2.Clean

namespace Scalar

theorem Complete.clean {value : Scalar} (h : value.Complete) : value.Clean :=
  .inr h

theorem clean_undefined : undefined.Clean :=
  .inl rfl

theorem Clean.complete {value : Scalar} (h : value.Clean) (hvalue : value ≠ .undefined) :
    value.Complete :=
  h.resolve_left hvalue

/-- The fields of a clean record are complete. -/
theorem Clean.of_record {row : Row} (h : (record row).Clean) : row.Complete :=
  h.complete fun heq => by cases heq

/-- A value that says something is complete. -/
theorem Clean.of_not_nullish {value : Scalar} (h : value.Clean) (hvalue : value.isNullish = false) :
    value.Complete :=
  h.complete fun heq => by
    rw [heq] at hvalue
    cases hvalue

theorem complete_ofInt? {i : Int} {value : Scalar} (h : ofInt? i = some value) :
    value.Complete := by
  unfold ofInt? at h
  split at h
  · cases h
    trivial
  · cases h

theorem complete_ofInt (i : Int) : (ofInt i).Complete := by
  unfold ofInt
  cases h : ofInt? i with
  | none => trivial
  | some value => exact complete_ofInt? h

end Scalar

/-! ## Rows -/

namespace Row

theorem complete_iff (row : Row) : row.Complete ↔ ∀ field ∈ row.toList, field.2.Complete :=
  match row with
  | nil => by simp [Row.Complete]
  | cons name value rest => by simp [Row.Complete, complete_iff rest]

namespace Complete

variable {row : Row}

theorem get? (h : row.Complete) {name : String} {value : Scalar}
    (hvalue : row.get? name = some value) : value.Complete := by
  rw [get?_eq_lookup] at hvalue
  exact row.complete_iff.1 h _ (OrdMap.mem_of_lookup hvalue)

/-- A missing value takes a field out of a row, any other one is put in. -/
theorem insert (h : row.Complete) (name : String) {value : Scalar} (hvalue : value.Clean) :
    (row.insert name value).Complete := by
  rw [complete_iff] at h ⊢
  unfold Row.insert
  split
  · rw [toList_erase]
    exact fun field hfield => h field ((OrdMap.remove_sublist _ _).subset hfield)
  next hdefined =>
    rw [toList_put]
    intro field hfield
    rcases OrdMap.mem_place hfield with rfl | hfield
    · exact hvalue.complete hdefined
    · exact h field hfield

theorem insertAll (h : row.Complete) {fields : List (String × Scalar)}
    (hfields : ∀ field ∈ fields, field.2.Complete) : (row.insertAll fields).Complete := by
  induction fields generalizing row with
  | nil => exact h
  | cons field rest ih =>
      obtain ⟨hfield, hrest⟩ := List.forall_mem_cons.1 hfields
      exact ih (h.insert field.1 hfield.clean) hrest

theorem extend (h : row.Complete) {other : Row} (hother : other.Complete) :
    (row.extend other).Complete :=
  h.insertAll (other.complete_iff.1 hother)

end Complete

end Row

theorem Rows.Complete.mem {rows : Rows} (h : rows.Complete) :
    ∀ entry ∈ rows.entries, entry.2.Complete :=
  fun entry hentry => h entry.1 entry.2 (OrdMap.get?_eq_some_iff.2 hentry)

theorem Rows.Complete.ofList {entries : List (Key × Row)}
    (h : ∀ entry ∈ entries, entry.2.Complete) : Rows.Complete (OrdMap.ofList entries) :=
  fun _ _ hrow => h _ (OrdMap.mem_of_get?_ofList hrow)

theorem Rows.Complete.empty : Rows.Complete OrdMap.empty :=
  fun _ _ h => by cases h

/-- The rows of a subquery stand for a complete value. -/
theorem complete_valueOfRows {rows : List Row} (h : ∀ row ∈ rows, row.Complete) :
    (valueOfRows rows).Complete := by
  unfold valueOfRows
  split
  · trivial
  · exact (h _ List.mem_cons_self).1
  · exact h _ List.mem_cons_self

/-! ## Functions -/

namespace Function

variable {function : Function} {value : Scalar}

theorem complete_onInts {x y : Int} (h : function.onInts x y = some value) : value.Complete := by
  unfold onInts at h
  split at h
  case h_1 | h_2 | h_3 => exact Scalar.complete_ofInt? h
  case h_4 =>
    split at h
    · cases h
      trivial
    · split at h
      · exact Scalar.complete_ofInt? h
      · cases h
  case h_5 => cases h

theorem complete_onFloats (function : Function) (x y : Binary64) :
    (function.onFloats x y).Complete := by
  unfold onFloats
  split
  case h_1 | h_2 | h_3 => trivial
  case h_4 => split <;> trivial

theorem complete_arithmetic {a b : Scalar} (h : function.arithmetic a b = some value) :
    value.Complete := by
  unfold arithmetic at h
  dsimp only at h
  split at h
  next result hexact =>
    cases h
    split at hexact
    · exact complete_onInts hexact
    · cases hexact
  · split at h
    · cases h
      exact function.complete_onFloats _ _
    · cases h

theorem clean_compared {a b : Scalar} (h : function.compared a b = some value) : value.Clean := by
  unfold compared at h
  split at h
  · cases h
    exact .inr trivial
  · obtain ⟨_, -, rfl⟩ := Option.map_eq_some_iff.1 h
    exact .inr trivial

theorem clean_onText {f : String → Scalar} (hf : ∀ s, (f s).Complete) {a : Scalar}
    (h : onText f a = some value) : value.Clean := by
  unfold onText at h
  split at h
  · cases h
    exact (hf _).clean
  · split at h
    · cases h
      exact Scalar.clean_undefined
    · cases h

/-- No function gives a record. -/
theorem clean_of_apply {values : List Scalar} (h : function.apply values = some value) :
    value.Clean := by
  have hguarded {c : Bool} {x : Option Scalar} (hx : x = some value → value.Clean)
      (hif : (if c then some .null else x) = some value) : value.Clean := by
    cases c with
    | true =>
        cases hif
        exact .inr trivial
    | false => exact hx hif
  unfold apply at h
  split at h
  case h_1 | h_2 | h_3 | h_8 | h_9 =>
    cases h
    exact .inr trivial
  case h_4 | h_5 | h_6 | h_7 => exact clean_compared h
  case h_10 =>
    unfold lengthOf at h
    split at h
    · cases h
      exact .inr trivial
    · exact clean_onText (f := fun s => .int (Int64.ofNat s.length)) (fun _ => trivial) h
  case h_11 => exact clean_onText (f := fun s => .text (Text.upper s)) (fun _ => trivial) h
  case h_12 => exact clean_onText (f := fun s => .text (Text.lower s)) (fun _ => trivial) h
  case h_13 | h_14 | h_15 | h_16 => exact hguarded (fun h => (complete_arithmetic h).clean) h
  case h_17 => cases h

end Function

/-! ## Aggregates -/

theorem Total.complete_sum (total : Total) : total.sum.Complete := by
  unfold sum
  split
  · trivial
  · split
    · exact Scalar.complete_ofInt _
    · trivial

theorem Total.complete_average (total : Total) : total.average.Complete := by
  unfold average
  split <;> trivial

namespace Accumulator

/-- The values that are kept are complete. -/
def Clean : Accumulator → Prop
  | least values => ∀ value n, values.get? value = some n → value.Complete
  | greatest values => ∀ value n, values.get? value = some n → value.Complete
  | _ => True

theorem clean_start (function : Aggregate) (arguments : Nat) :
    (start function arguments).Clean := by
  cases function with
  | count =>
      unfold start
      dsimp only
      split <;> trivial
  | sum | avg => trivial
  | min | max => exact fun _ _ h => by cases h

variable {acc : Accumulator}

/-- What is missing is not kept. -/
theorem Clean.add (h : acc.Clean) {value : Scalar} (hvalue : value.Clean) :
    (acc.add value).Clean := by
  have hbag {values : Bag Scalar} (hvalues : ∀ v n, values.get? v = some n → v.Complete)
      (hnullish : value.isNullish ≠ true) :
      ∀ v n, (Bag.add values value).get? v = some n → v.Complete := by
    intro v n hget
    rw [Bag.get?_add] at hget
    split at hget
    next heq => exact heq ▸ hvalue.of_not_nullish (eq_false_of_ne_true hnullish)
    · exact hvalues v n hget
  cases acc with
  | tuples | sum | average => trivial
  | present n =>
      unfold Accumulator.add
      dsimp only
      split <;> trivial
  | least values | greatest values =>
      unfold Accumulator.add
      dsimp only
      split
      · exact h
      next hnullish => exact hbag h hnullish

theorem Clean.takeOut? (h : acc.Clean) {value : Scalar} {left : Accumulator}
    (hleft : acc.takeOut? value = some left) : left.Clean := by
  have hbag {values rest : Bag Scalar} (hvalues : ∀ v n, values.get? v = some n → v.Complete)
      (hrest : Bag.takeOut? values value = some rest) :
      ∀ v n, rest.get? v = some n → v.Complete := by
    intro v n hget
    unfold Bag.takeOut? at hrest
    split at hrest
    · cases hrest
    next count hcount =>
      split at hrest
      · cases hrest
        rw [OrdMap.get?_erase_eq] at hget
        split at hget
        · cases hget
        · exact hvalues v n hget
      · cases hrest
        rw [OrdMap.get?_insert_eq] at hget
        split at hget
        next heq => exact heq ▸ hvalues _ _ hcount
        · exact hvalues v n hget
  cases acc with
  | tuples | present =>
      simp only [Accumulator.takeOut?] at hleft
      repeat' split at hleft
      all_goals cases hleft
      all_goals trivial
  | sum | average =>
      obtain ⟨_, -, rfl⟩ := Option.map_eq_some_iff.1 hleft
      trivial
  | least values | greatest values =>
      simp only [Accumulator.takeOut?] at hleft
      split at hleft
      · cases hleft
        exact h
      · obtain ⟨rest, hrest, rfl⟩ := Option.map_eq_some_iff.1 hleft
        exact hbag h hrest

/-- The value of an aggregate is not missing. -/
theorem Clean.complete_value (h : acc.Clean) : acc.value.Complete := by
  cases acc with
  | tuples | present => trivial
  | sum total => exact total.complete_sum
  | average total => exact total.complete_average
  | least values =>
      unfold value
      dsimp only
      cases hfirst : values.first? with
      | none => trivial
      | some entry => exact h _ _ (OrdMap.get?_eq_some_iff.2 (List.mem_of_head? hfirst))
  | greatest values =>
      unfold value
      dsimp only
      cases hlast : values.last? with
      | none => trivial
      | some entry => exact h _ _ (OrdMap.get?_eq_some_iff.2 (List.mem_of_getLast? hlast))

end Accumulator

/-! ## Evaluations -/

/-- What an evaluation gives has a property. -/
def Except.Yields {ε α : Type} (P : α → Prop) (x : Except ε α) : Prop :=
  ∀ a, x = .ok a → P a

namespace Except.Yields

variable {ε α β : Type} {P : α → Prop} {Q : β → Prop} {x : Except ε α}

theorem ok {a : α} (h : P a) : Except.Yields P (.ok a : Except ε α) :=
  fun _ heq => by cases heq; exact h

theorem error (e : ε) : Except.Yields P (.error e : Except ε α) :=
  fun _ heq => by cases heq

theorem bind {f : α → Except ε β} (hx : Except.Yields P x)
    (hf : ∀ a, P a → Except.Yields Q (f a)) : Except.Yields Q (x >>= f) := by
  intro b h
  obtain ⟨a, ha, h⟩ := Except.bind_eq_ok.1 h
  exact hf a (hx a ha) b h

theorem map {f : α → β} (hx : Except.Yields P x) (hf : ∀ a, P a → Q (f a)) :
    Except.Yields Q (f <$> x) := by
  intro b h
  obtain ⟨a, ha, rfl⟩ := Except.map_eq_ok.1 h
  exact hf a (hx a ha)

end Except.Yields

namespace Evaluator

/-- What is read for some expressions is complete: their literals, and in clean frames the output of
their subqueries. -/
structure Supplied (ev : Evaluator) (es : List Expr) : Prop where
  literals : ∀ id value, .literal id value ∈ es → value.Complete
  subqueries : ∀ id sub, .subquery id sub ∈ es → ∀ frames, (∀ frame ∈ frames, frame.Clean) →
    Except.Yields (fun rows => ∀ row ∈ rows, row.Complete) (ev.inputs.subquery sub frames)

variable {ev : Evaluator} {frames : List Frame} {es : List Expr}

theorem yields_settle (policy : FieldPolicy) (error : EvalError) :
    Except.Yields Scalar.Clean (policy.settle error) := by
  cases policy with
  | undefined => exact .ok Scalar.clean_undefined
  | strict => exact .error _

theorem yields_bound (ev : Evaluator) (name : String) (hframes : ∀ frame ∈ frames, frame.Clean) :
    Except.Yields Scalar.Clean (ev.bound name frames) := by
  induction frames with
  | nil => exact .error _
  | cons frame outer ih =>
      obtain ⟨hframe, houter⟩ := List.forall_mem_cons.1 hframes
      unfold bound
      split
      next position _ =>
        refine .ok ?_
        rw [List.getD_eq_getElem?_getD]
        cases hvalue : frame.env[position]? with
        | none => exact Scalar.clean_undefined
        | some value => exact hframe.env value (List.mem_of_getElem? hvalue)
      · exact ih houter

theorem yields_descend (ev : Evaluator) (path : Path) {value : Scalar} (fields : List String)
    (hvalue : value.Clean) : Except.Yields Scalar.Clean (ev.descend path value fields) := by
  induction fields generalizing path value with
  | nil => exact .ok hvalue
  | cons field rest ih =>
      unfold descend
      cases value with
      | record row =>
          dsimp only
          cases hfield : row.get? field with
          | some value => exact ih _ (hvalue.of_record.get? hfield).clean
          | none => exact yields_settle _ _
      | undefined | null => exact .ok Scalar.clean_undefined
      | _ => exact yields_settle _ _

theorem yields_lookup (ev : Evaluator) (path : Path) (hframes : ∀ frame ∈ frames, frame.Clean) :
    Except.Yields Scalar.Clean (ev.lookup frames path) :=
  (yields_bound ev path.base hframes).bind fun _ hvalue => yields_descend ev _ _ hvalue

theorem yields_applied (ev : Evaluator) (function : Function) (values : List Scalar) :
    Except.Yields Scalar.Clean (ev.applied function values) := by
  unfold applied
  split
  next value happly => exact .ok (Function.clean_of_apply happly)
  · exact yields_settle _ _

theorem yields_aggregateValue (hframes : ∀ frame ∈ frames, frame.Clean) (e : Expr) :
    Except.Yields Scalar.Clean (aggregateValue frames e) := by
  unfold aggregateValue
  split
  · exact .error _
  next values hvalues =>
    obtain ⟨frame, hframe, hvalues⟩ := Option.bind_eq_some_iff.1 hvalues
    split
    next value hvalue =>
      exact .ok ((hframes frame (List.mem_of_head? hframe)).aggregates values hvalues _
        (mem_of_lookup hvalue))
    · exact .error _

namespace Supplied

mutual

/-- An expression has a clean value in clean frames. -/
theorem yields_eval (h : ev.Supplied es) (hframes : ∀ frame ∈ frames, frame.Clean) (e : Expr)
    (he : e.subterms ⊆ es) : Except.Yields Scalar.Clean (ev.eval frames e) := by
  match e with
  | .literal id value => exact .ok (h.literals id value (he List.mem_cons_self)).clean
  | .reference id path =>
      simp only [eval]
      exact yields_lookup ev path hframes
  | .aggregate id function args =>
      simp only [eval]
      exact yields_aggregateValue hframes _
  | .subquery id sub =>
      simp only [eval]
      exact (h.subqueries id sub (he List.mem_cons_self) frames hframes).bind fun _ hrows =>
        .ok (complete_valueOfRows hrows).clean
  | .call id function args =>
      have hargs : Expr.subtermsOf args ⊆ es := fun x hx => he (List.mem_cons_of_mem _ hx)
      cases function with
      | and | or =>
          simp only [eval]
          exact (h.yields_firstWhere hframes _ args hargs).bind fun _ _ => .ok (.inr trivial)
      | coalesce =>
          simp only [eval]
          refine (h.yields_firstWhere hframes _ args hargs).bind fun found hfound => .ok ?_
          cases found with
          | none => exact .inr trivial
          | some value => exact hfound value rfl
      | _ =>
          simp only [eval]
          exact (h.yields_evalAll hframes args hargs).bind fun _ _ => yields_applied ev _ _

theorem yields_evalAll (h : ev.Supplied es) (hframes : ∀ frame ∈ frames, frame.Clean)
    (exprs : List Expr) (he : Expr.subtermsOf exprs ⊆ es) :
    Except.Yields (fun values => ∀ value ∈ values, value.Clean) (ev.evalAll frames exprs) := by
  match exprs with
  | [] => exact .ok fun _ hmem => absurd hmem List.not_mem_nil
  | e :: rest =>
      simp only [evalAll]
      refine (h.yields_eval hframes e fun x hx => he (List.mem_append_left _ hx)).bind
        fun _ hvalue => ?_
      exact (h.yields_evalAll hframes rest fun x hx => he (List.mem_append_right _ hx)).bind
        fun _ hvalues => .ok (List.forall_mem_cons.2 ⟨hvalue, hvalues⟩)

theorem yields_firstWhere (h : ev.Supplied es) (hframes : ∀ frame ∈ frames, frame.Clean)
    (p : Scalar → Bool) (exprs : List Expr) (he : Expr.subtermsOf exprs ⊆ es) :
    Except.Yields (fun found => ∀ value ∈ found, value.Clean) (ev.firstWhere frames p exprs) := by
  match exprs with
  | [] => exact .ok fun _ hmem => absurd hmem (Option.not_mem_none _)
  | e :: rest =>
      simp only [firstWhere]
      refine (h.yields_eval hframes e fun x hx => he (List.mem_append_left _ hx)).bind
        fun value hvalue => ?_
      split
      · exact .ok fun _ hmem => Option.mem_some_iff.1 hmem ▸ hvalue
      · exact h.yields_firstWhere hframes p rest fun x hx => he (List.mem_append_right _ hx)

end

/-! ## Output rows -/

theorem yields_projectFields (h : ev.Supplied es) (hframes : ∀ frame ∈ frames, frame.Clean)
    {row : Row} (hrow : row.Complete) (items : List SelectField)
    (he : Expr.subtermsOf (items.map SelectField.expr) ⊆ es) :
    Except.Yields Row.Complete (ev.projectFields frames row items) := by
  induction items generalizing row with
  | nil => exact .ok hrow
  | cons item rest ih =>
      have hrest : Expr.subtermsOf (rest.map SelectField.expr) ⊆ es :=
        fun x hx => he (List.mem_append_right _ hx)
      have hitem := h.yields_eval hframes item.expr fun x hx => he (List.mem_append_left _ hx)
      cases item with
      | named name e => exact hitem.bind fun value hvalue => ih (hrow.insert name hvalue) hrest
      | spread e =>
          refine hitem.bind fun value hvalue => ?_
          split
          · exact ih (hrow.extend hvalue.of_record) hrest
          · exact ih hrow hrest

/-- A body puts out complete rows. -/
theorem yields_project (h : ev.Supplied es) (hframes : ∀ frame ∈ frames, frame.Clean) {body : Body}
    (he : Expr.subtermsOf body.selectionExprs ⊆ es) :
    Except.Yields (fun made => made.row.Complete) (ev.project frames body) := by
  have hempty : Row.nil.Complete := trivial
  have hrow : Except.Yields Row.Complete (ev.projectRow frames body.selection) := by
    unfold Body.selectionExprs at he
    cases hselection : body.selection with
    | none => exact .ok trivial
    | some selection =>
        rw [hselection] at he
        cases selection with
        | fields items => exact h.yields_projectFields hframes hempty items he
        | value e =>
            refine (h.yields_eval hframes e fun x hx => he (List.mem_append_left _ hx)).bind
              fun value hvalue => ?_
            split
            · exact .ok hvalue.of_record
            · exact .ok (hempty.insert _ hvalue)
  refine hrow.bind fun row hcomplete => ?_
  intro made hmade
  obtain ⟨sort, -, hmade⟩ := Except.bind_eq_ok.1 hmade
  cases hmade
  exact hcomplete

/-- What aggregates fold is clean. -/
theorem yields_aggregatedAll (h : ev.Supplied es) (hframes : ∀ frame ∈ frames, frame.Clean)
    {exprs : List Expr} (he : Expr.subtermsOf exprs ⊆ es) :
    Except.Yields (fun values => ∀ value ∈ values, value.Clean)
      (ev.aggregatedAll frames exprs) := by
  induction exprs with
  | nil => exact .ok fun _ hmem => absurd hmem List.not_mem_nil
  | cons e rest ih =>
      have hfirst : Except.Yields Scalar.Clean (ev.aggregated frames e) := by
        unfold aggregated
        split
        · exact h.yields_eval hframes _ fun x hx =>
            he (List.mem_append_left _ (List.mem_cons_of_mem _ (List.mem_append_left _ hx)))
        · exact .ok (.inr trivial)
      refine hfirst.bind fun _ hvalue => ?_
      exact (ih fun x hx => he (List.mem_append_right _ hx)).bind
        fun _ hvalues => .ok (List.forall_mem_cons.2 ⟨hvalue, hvalues⟩)

end Supplied

end Evaluator

end LiveQuery
