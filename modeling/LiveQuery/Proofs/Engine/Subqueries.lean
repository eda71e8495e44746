import LiveQuery.Proofs.Engine.Keys
import LiveQuery.Proofs.Join.Combination
import LiveQuery.Proofs.Row
import LiveQuery.Proofs.View.Window

/-!
# The values of subqueries

A subquery stands for a single value or for a row. By its projection it is a single value if one
field is selected. It is evaluated by the row there is, though: a selected field has no place in the
row if its value is missing, and a row with one field stands for the value of this field, however
many were selected.

**Results.** `Engine.subquery_shaped`: what the value is, and when it is the one that the projection
tells; `Engine.subquery_misshaped`: both ways in which it is not.
-/

namespace LiveQuery

/-- A row is made of fields with given names, and none of its values is missing. -/
structure Row.Among (names : List String) (row : Row) : Prop where
  ordered : row.Ordered
  fields : ∀ name value, row.get? name = some value → name ∈ names ∧ value ≠ .undefined

theorem Row.Among.insert {names : List String} {row : Row} (h : row.Among names) {name : String}
    (hname : name ∈ names) (value : Scalar) : (row.insert name value).Among names := by
  refine ⟨h.ordered.insert name value, fun field found hfield => ?_⟩
  rw [Row.get?_insert h.ordered] at hfield
  split at hfield
  next heq =>
    split at hfield
    · cases hfield
    next hvalue =>
      cases hfield
      exact ⟨heq ▸ hname, hvalue⟩
  · exact h.fields field found hfield

/-- The names of the selected fields, when nothing else is selected. -/
def Selection.Names (names : List String) (selection : Option Selection) : Prop :=
  ∃ fields : List (String × Expr), names = fields.map Prod.fst ∧
    selection = some (.fields (fields.map fun field => .named field.1 field.2))

theorem Evaluator.among_projectFields {ev : Evaluator} {frames : List Frame} {names : List String}
    {row made : Row} {fields : List (String × Expr)} (h : row.Among names)
    (hnames : fields.map Prod.fst ⊆ names)
    (hmade : ev.projectFields frames row (fields.map fun field => .named field.1 field.2)
      = .ok made) : made.Among names := by
  induction fields generalizing row with
  | nil =>
      cases hmade
      exact h
  | cons field rest ih =>
      obtain ⟨value, -, hmade⟩ := Except.bind_eq_ok.1 hmade
      rw [List.map_cons, List.cons_subset] at hnames
      exact ih (h.insert hnames.1 value) hnames.2 hmade

/-- What is projected has values for some of the selected names only. -/
theorem Evaluator.among_project {ev : Evaluator} {frames : List Frame} {body : Body}
    {names : List String} (hnames : Selection.Names names body.selection) {made : StagedRow}
    (h : ev.project frames body = .ok made) : made.row.Among names := by
  obtain ⟨row, hrow, h⟩ := Except.bind_eq_ok.1 h
  obtain ⟨sort, -, h⟩ := Except.bind_eq_ok.1 h
  cases h
  obtain ⟨fields, rfl, hselection⟩ := hnames
  rw [hselection] at hrow
  exact among_projectFields ⟨Row.ordered_nil, fun _ _ h => (nomatch h)⟩ (List.Subset.refl _) hrow

/-- The rows that are put out are visible. -/
theorem View.exists_of_mem_output {view : View} {b : Blueprint} {entry : Key × Row}
    (h : entry ∈ view.output b) : view.visible.get? entry.1 = some entry.2 := by
  unfold View.output at h
  split at h
  · obtain ⟨key, -, hentry⟩ := List.mem_filterMap.1 h
    obtain ⟨row, hrow, rfl⟩ := Option.map_eq_some_iff.1 hentry
    exact hrow
  · exact OrdMap.get?_eq_some_iff.2 h

/-! ## The value of rows -/

/-- What the rows of a subquery stand for by its projection: none is null, and of the first row the
value of the one selected field, or the row if several are selected. -/
def shapeOf (names : List String) : List Row → Scalar
  | [] => .null
  | row :: _ =>
      match names with
      | [name] => (row.get? name).getD .undefined
      | _ => .record row

theorem valueOfRows_of_single {row : Row} {rest : List Row} (h : row.size = 1) {name : String}
    {value : Scalar} (hvalue : row.get? name = some value) : valueOfRows (row :: rest) = value := by
  cases row with
  | nil => cases h
  | cons field single fields =>
      cases fields with
      | cons => simp [Row.size] at h
      | nil =>
          unfold Row.get? at hvalue
          split at hvalue
          · exact Option.some.inj hvalue
          · cases hvalue

theorem valueOfRows_of_not_single {row : Row} {rest : List Row} (h : row.size ≠ 1) :
    valueOfRows (row :: rest) = .record row := by
  cases row with
  | nil => rfl
  | cons field value fields =>
      cases fields with
      | nil => exact absurd rfl h
      | cons => rfl

/-- A single value is not the row that it is in. -/
theorem valueOfRows_ne_record {row : Row} {rest : List Row} (h : row.size = 1) :
    valueOfRows (row :: rest) ≠ .record row := by
  cases row with
  | nil => cases h
  | cons field value fields =>
      cases fields with
      | cons => simp [Row.size] at h
      | nil =>
          intro heq
          have hsize := congrArg sizeOf (show value = .record (.cons field value .nil) from heq)
          simp at hsize
          omega

theorem shapeOf_of_several {names : List String} (h : names.length ≠ 1) (row : Row)
    (rest : List Row) : shapeOf names (row :: rest) = .record row := by
  match names with
  | [] => rfl
  | [_] => exact absurd rfl h
  | _ :: _ :: _ => rfl

/-- The value is the one that the projection tells if the row has one field just if one is
selected. -/
theorem valueOfRows_eq_shapeOf_iff {names : List String} {row : Row} {rest : List Row}
    (h : row.Among names) :
    valueOfRows (row :: rest) = shapeOf names (row :: rest) ↔ (names.length = 1 ↔ row.size = 1) := by
  by_cases hone : names.length = 1
  · obtain ⟨name, rfl⟩ := List.length_eq_one_iff.1 hone
    have honly : ∀ field value, row.get? field = some value → field = name :=
      fun field value hvalue => List.mem_singleton.1 (h.fields field value hvalue).1
    have hshape : shapeOf [name] (row :: rest) = (row.get? name).getD .undefined := rfl
    rw [hshape]
    cases hvalue : row.get? name with
    | none =>
        -- the row is empty
        have hsize : row.size ≠ 1 := fun hsize => by
          obtain ⟨field, hfield, -⟩ := (Row.size_eq_one_iff h.ordered).1 hsize
          obtain ⟨value, hvalue'⟩ := Option.isSome_iff_exists.1 hfield
          cases (honly field value hvalue' ▸ hvalue').symm.trans hvalue
        rw [valueOfRows_of_not_single hsize]
        exact ⟨fun heq => (nomatch heq), fun hiff => absurd (hiff.1 rfl) hsize⟩
    | some value =>
        have hsize : row.size = 1 := by
          refine (Row.size_eq_one_iff h.ordered).2 ⟨name, by simp [hvalue], fun field hfield => ?_⟩
          obtain ⟨other, hother⟩ := Option.isSome_iff_exists.1 hfield
          exact honly field other hother
        exact ⟨fun _ => ⟨fun _ => hsize, fun _ => rfl⟩, fun _ => valueOfRows_of_single hsize hvalue⟩
  · rw [shapeOf_of_several hone]
    refine ⟨fun heq => ⟨fun hlength => absurd hlength hone, fun hsize =>
      absurd heq (valueOfRows_ne_record hsize)⟩, fun hiff => ?_⟩
    exact valueOfRows_of_not_single fun hsize => hone (hiff.2 hsize)

namespace Engine

variable {plan : Plan} {query sub : BodyId} {policy : FieldPolicy} {e : Engine}

/-- The output of a subquery, read at any depth and in any frames, has values for some of its
selected names only. -/
theorem Reached.among_subquery (h : Reached plan query policy e) {names : List String}
    (hnames : Selection.Names names (plan.body sub).selection) {depth : Nat} {frames : List Frame}
    {rows : List Row} (hrows : (e.inputsWithin depth).subquery sub frames = .ok rows) :
    ∀ row ∈ rows, row.Among names := by
  obtain ⟨rfl, -⟩ := h.made_for
  have hview : ∀ {view : View}, (e.blueprint sub).Reached view →
      ∀ row ∈ (view.output (e.blueprint sub)).map Prod.snd, row.Among names := by
    intro view hreached row hrow
    obtain ⟨entry, hentry, rfl⟩ := List.mem_map.1 hrow
    obtain ⟨made, hmade, heq⟩ := (hreached.all (P := fun made => made.row.Among names)
      fun ev frames made hproject => Evaluator.among_project hnames hproject).visible _ _
        (View.exists_of_mem_output hentry)
    exact heq ▸ hmade
  cases depth with
  | zero => cases hrows
  | succ depth =>
      simp only [inputsWithin_succ, inputsStep] at hrows
      cases hkept : e.views.get? sub with
      | some view =>
          rw [hkept] at hrows
          cases hrows
          exact hview (h.kept sub view hkept)
      | none =>
          rw [hkept] at hrows
          obtain ⟨view, hmade, hrows⟩ := Except.bind_eq_ok.1 hrows
          cases hrows
          exact hview (reached_viewWithin hmade)

/-- A subquery that selects named fields fails only if its rows cannot be evaluated. Without rows it
is null. Otherwise the first row has values for some of the selected names; if just one name has a
value the subquery stands for this value, and in all other cases for the row. That is what the
projection tells if one name is selected and has a value, or if not just one is selected and not
just one has a value. -/
theorem subquery_shaped (h : Reached plan query policy e) {names : List String}
    (hnames : Selection.Names names (plan.body sub).selection) (depth : Nat) (frames : List Frame)
    (id : ExprId) :
    (∀ error, Evaluator.eval { plan, policy, inputs := e.inputsWithin depth } frames
        (.subquery id sub) = .error error ↔
      (e.inputsWithin depth).subquery sub frames = .error error) ∧
    ∀ rows, (e.inputsWithin depth).subquery sub frames = .ok rows →
      ∃ value, Evaluator.eval { plan, policy, inputs := e.inputsWithin depth } frames
          (.subquery id sub) = .ok value ∧
        (rows = [] → value = .null) ∧
        ∀ first rest, rows = first :: rest →
          (∀ name found, first.get? name = some found → name ∈ names ∧ found ≠ .undefined) ∧
          (∀ name found, first.get? name = some found →
            (∀ other, other ≠ name → first.get? other = none) → value = found) ∧
          ((¬∃! name, (first.get? name).isSome) → value = .record first) ∧
          (value = shapeOf names rows ↔
            (names.length = 1 ↔ ∃! name, (first.get? name).isSome)) := by
  have heval : Evaluator.eval { plan, policy, inputs := e.inputsWithin depth } frames
      (.subquery id sub)
      = (e.inputsWithin depth).subquery sub frames >>= fun rows => .ok (valueOfRows rows) := by
    rw [Evaluator.eval]
    rfl
  rw [heval]
  refine ⟨fun error => ?_, fun rows hrows => ?_⟩
  · rw [Except.bind_eq_error]
    refine ⟨fun herror => herror.resolve_right ?_, .inl⟩
    rintro ⟨_, -, hnever⟩
    cases hnever
  · rw [hrows]
    refine ⟨valueOfRows rows, rfl, fun hnone => by rw [hnone]; rfl, ?_⟩
    rintro first rest rfl
    have hfirst := h.among_subquery hnames hrows first List.mem_cons_self
    have hone := Row.size_eq_one_iff hfirst.ordered
    refine ⟨hfirst.fields, fun name found hfound hothers => ?_, fun hseveral => ?_, ?_⟩
    · refine valueOfRows_of_single (hone.2 ⟨name, by simp [hfound], fun other hother => ?_⟩) hfound
      by_contra hne
      simp [hothers other hne] at hother
    · exact valueOfRows_of_not_single (mt hone.1 hseveral)
    · rw [valueOfRows_eq_shapeOf_iff hfirst, hone]

/-- Subqueries for one field that all rows have, for two fields of which one is missing, and for the
missing one. -/
def narrow : Plan :=
  ({} : Plan).write
    [[.bind "p" (.collection ⟨0, "c"⟩) none,
      .openBody, .bind "u" (.collection ⟨0, "c"⟩) none,
      .select [.field "x" (.ref ⟨1, ⟨"u", ["x"]⟩⟩)], .closeBody,
      .openBody, .bind "v" (.collection ⟨0, "c"⟩) none,
      .select [.field "x" (.ref ⟨2, ⟨"v", ["x"]⟩⟩), .field "y" (.ref ⟨2, ⟨"v", ["y"]⟩⟩)],
      .closeBody,
      .openBody, .bind "w" (.collection ⟨0, "c"⟩) none,
      .select [.field "y" (.ref ⟨3, ⟨"w", ["y"]⟩⟩)], .closeBody,
      .select [.field "r" (.query 1), .field "s" (.query 2), .field "t" (.query 3)]]]

/-- What the rows and the value of a subquery are, outside all frames. -/
def narrowValue (e : Engine) (sub : BodyId) : Option (List Row × Scalar) := do
  let inputs := e.inputsWithin 4
  let rows ← (inputs.subquery sub []).toOption
  let value ← (Evaluator.eval { plan := narrow, policy := .undefined, inputs } []
    (.subquery 0 sub)).toOption
  some (rows, value)

/-- The rows and the values of the three subqueries. -/
def narrowValues (e : Engine) : List (Option (List Row × Scalar)) :=
  [narrowValue e 1, narrowValue e 2, narrowValue e 3]

/-- A row with the field `x` only. -/
theorem exists_narrow :
    ∃ e, Reached narrow 0 .undefined e ∧ narrowValues e
      = [some ([.cons "x" (.int 7) .nil], .int 7), some ([.cons "x" (.int 7) .nil], .int 7),
        some ([.nil], .record .nil)] :=
  exists_loaded (fun _ => .numbered [7]) (by decide +kernel)

theorem names_narrow :
    Selection.Names ["x"] (narrow.body 1).selection ∧
    Selection.Names ["x", "y"] (narrow.body 2).selection ∧
    Selection.Names ["y"] (narrow.body 3).selection :=
  ⟨⟨[("x", _)], rfl, rfl⟩, ⟨[("x", _), ("y", _)], rfl, rfl⟩, ⟨[("y", _)], rfl, rfl⟩⟩

theorem of_narrowValue {e : Engine} {sub : BodyId} {rows : List Row} {value : Scalar}
    (h : narrowValue e sub = some (rows, value)) :
    (e.inputsWithin 4).subquery sub [] = .ok rows ∧
      Evaluator.eval { plan := narrow, policy := .undefined, inputs := e.inputsWithin 4 } []
        (.subquery 0 sub) = .ok value := by
  obtain ⟨rows', hrows, h⟩ := Option.bind_eq_some_iff.1 h
  obtain ⟨value', hvalue, h⟩ := Option.bind_eq_some_iff.1 h
  cases h
  exact ⟨Except.of_toOption hrows, Except.of_toOption hvalue⟩

/-- The one selected field has a value. -/
theorem subquery_shaped_narrow :
    ∃ e, Reached narrow 0 .undefined e ∧ Selection.Names ["x"] (narrow.body 1).selection ∧
      ∃ rows value, (e.inputsWithin 4).subquery 1 [] = .ok rows ∧
        Evaluator.eval { plan := narrow, policy := .undefined, inputs := e.inputsWithin 4 } []
          (.subquery 0 1) = .ok value ∧
        value = shapeOf ["x"] rows ∧ value = .int 7 := by
  obtain ⟨e, hreached, hvalues⟩ := exists_narrow
  obtain ⟨hfirst, -⟩ := List.cons.inj hvalues
  obtain ⟨hrows, -⟩ := of_narrowValue hfirst
  obtain ⟨value, hvalue, -, hrow⟩ :=
    (subquery_shaped hreached names_narrow.1 4 [] 0).2 _ hrows
  obtain ⟨-, hsingle, -, hshape⟩ := hrow _ _ rfl
  have honly : ∀ other, other ≠ "x" → (Row.cons "x" (.int 7) .nil).get? other = none :=
    fun other hother => by simp [Row.get?, hother.symm]
  refine ⟨e, hreached, names_narrow.1, _, value, hrows, hvalue, hshape.2 ?_, hsingle "x" _ rfl honly⟩
  refine ⟨fun _ => ⟨"x", rfl, fun other hother => ?_⟩, fun _ => rfl⟩
  by_contra hne
  exact Option.isSome_iff_ne_none.1 hother (honly other hne)

/-- Of two selected fields one has a value, and the subquery stands for it, not for a row; the one
selected field has none, and the subquery stands for the empty row, not for a missing value. -/
theorem subquery_misshaped :
    ∃ e, Reached narrow 0 .undefined e ∧
      (Selection.Names ["x", "y"] (narrow.body 2).selection ∧
        ∃ rows value, (e.inputsWithin 4).subquery 2 [] = .ok rows ∧
          Evaluator.eval { plan := narrow, policy := .undefined, inputs := e.inputsWithin 4 } []
            (.subquery 0 2) = .ok value ∧ value ≠ shapeOf ["x", "y"] rows) ∧
      Selection.Names ["y"] (narrow.body 3).selection ∧
        ∃ rows value, (e.inputsWithin 4).subquery 3 [] = .ok rows ∧
          Evaluator.eval { plan := narrow, policy := .undefined, inputs := e.inputsWithin 4 } []
            (.subquery 0 3) = .ok value ∧ value ≠ shapeOf ["y"] rows := by
  obtain ⟨e, hreached, hvalues⟩ := exists_narrow
  obtain ⟨-, hvalues⟩ := List.cons.inj hvalues
  obtain ⟨hsecond, hvalues⟩ := List.cons.inj hvalues
  obtain ⟨hthird, -⟩ := List.cons.inj hvalues
  obtain ⟨hrows, heval⟩ := of_narrowValue hsecond
  obtain ⟨hrows', heval'⟩ := of_narrowValue hthird
  exact ⟨e, hreached, ⟨names_narrow.2.1, _, _, hrows, heval, by decide⟩, names_narrow.2.2, _, _,
    hrows', heval', by decide⟩

end Engine

end LiveQuery
