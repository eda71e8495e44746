import LiveQuery.Plan
import LiveQuery.Plan.Error

/-!
# Building queries

A draft is a plan with the bodies that are being written, the innermost first. Every
operation works on the innermost body. The first error in a body is kept until the body
is closed; it then becomes an error of the body around it, and at last the outcome of
the query.
-/

namespace LiveQuery

/-- A body being written, with its first error. -/
structure Scope where
  body : BodyId
  error : Option BuildError := none

/-- A plan with the bodies being written. -/
structure Draft where
  plan : Plan
  scope : Scope
  outer : List Scope := []

/-- A source alias or a path below one, as read through the body that bound it. -/
structure Proxy where
  body : BodyId
  path : Path

/-- What may stand as an argument. -/
inductive Operand where
  | expr (expr : Expr)
  | ref (proxy : Proxy)
  | value (value : Scalar)
  | query (body : BodyId)

/-- An item of a selection. -/
inductive SelectItem where
  | field (name : String) (operand : Operand)
  | spread (operand : Operand)

/-- An operation on a draft. -/
abbrev Builder := StateM Draft

/-- Opens a new body of a plan, as the outermost one. -/
def Plan.openQuery (plan : Plan) : Draft where
  plan := { plan with bodies := plan.bodies ++ [{}] }
  scope := { body := plan.bodies.length }

namespace Draft

/-- The innermost body. -/
def body (d : Draft) : Body :=
  d.plan.body d.scope.body

/-- Changes the innermost body. -/
def modifyBody (d : Draft) (f : Body → Body) : Draft :=
  { d with plan := { d.plan with bodies := d.plan.bodies.modify d.scope.body f } }

/-- Records an error, unless there is one already. -/
def fail (d : Draft) (error : BuildError) : Draft :=
  { d with scope := { d.scope with error := d.scope.error.or (some error) } }

/-- The error that the innermost body ends with. -/
def outcome (d : Draft) : Option BuildError :=
  match d.scope.error with
  | some error => some error
  | none => if d.body.selection.isNone then some .missingSelection else none

end Draft

namespace Builder

def fail (error : BuildError) : Builder Unit :=
  modify (·.fail error)

def modifyBody (f : Body → Body) : Builder Unit :=
  modify (·.modifyBody f)

/-! ## Expressions -/

/-- Makes an expression under a new number. -/
def newExpr (make : ExprId → Expr) : Builder Expr := do
  let d ← get
  set { d with plan := { d.plan with exprCount := d.plan.exprCount + 1 } }
  return make d.plan.exprCount

def literal (value : Scalar) : Builder Expr :=
  newExpr (.literal · value)

/-- The one reference for a path that is read through a body. -/
def reference (proxy : Proxy) : Builder Expr := do
  match (← get).plan.references.lookup (proxy.body, proxy.path) with
  | some e => return e
  | none =>
      let e ← newExpr (.reference · proxy.path)
      modify fun d => { d with plan := { d.plan with
        references := ((proxy.body, proxy.path), e) :: d.plan.references } }
      return e

/-- The one expression that evaluates a body as a value. -/
def subquery (body : BodyId) : Builder Expr := do
  match (← get).plan.subqueries.lookup body with
  | some e => return e
  | none =>
      let e ← newExpr (.subquery · body)
      modify fun d => { d with plan := { d.plan with
        subqueries := (body, e) :: d.plan.subqueries } }
      return e

def operand : Operand → Builder Expr
  | .expr e => return e
  | .ref proxy => reference proxy
  | .value value => literal value
  | .query body => subquery body

def operands : List Operand → Builder (List Expr)
  | [] => return []
  | arg :: rest => do
      let e ← operand arg
      return e :: (← operands rest)

def call (function : Function) (args : List Operand) : Builder Expr := do
  let args ← operands args
  newExpr (.call · function args)

/-- Calls a function by its name; null stands for a call of no known function. -/
def callNamed (name : String) (args : List Operand) : Builder Expr :=
  match Function.ofName? name with
  | some function => call function args
  | none => do
      fail (.unknownFunction name)
      literal .null

def aggregate (function : Aggregate) (args : List Operand) : Builder Expr := do
  let args ← operands args
  newExpr (.aggregate · function args)

/-- A condition together with one more. -/
def conjoin (existing : Option Expr) (cond : Expr) : Builder Expr :=
  match existing with
  | some existing => call .and [.expr existing, .expr cond]
  | none => return cond

/-! ## Sources -/

/-- A new alias: `source1`, `source2`, … -/
def freshAlias : Builder String := do
  let d ← get
  let n := d.plan.aliasCount + 1
  set { d with plan := { d.plan with aliasCount := n } }
  return "source" ++ toString n

/-- The error of binding one more source, by whether it is joined and one is bound. -/
def bindError? (join : Option JoinKind) (bound : Bool) : Option BuildError :=
  match join, bound with
  | none, true => some .firstSourceRedefined
  | some _, false => some .joinWithoutFirstSource
  | _, _ => none

/-- Binds a source to an alias, joined unless it is the first. -/
def bind (name : String) (origin : Origin) (join : Option JoinKind) : Builder Proxy := do
  let body := (← get).body
  match bindError? join (!body.sources.isEmpty) with
  | some error => fail error
  | none => pure ()
  if body.binds name then
    fail (.duplicateAlias name)
  let d ← get
  let source : Source := { id := d.plan.sourceCount, name, origin, join }
  set { d with plan := { d.plan with sourceCount := d.plan.sourceCount + 1 } }
  modifyBody fun body => { body with sources := body.sources ++ [source] }
  return ⟨d.scope.body, ⟨name, []⟩⟩

/-- Adds a condition to the `where` clause. -/
def filter (cond : Operand) : Builder Unit := do
  let cond ← operand cond
  let merged ← conjoin (← get).body.filter cond
  modifyBody fun body => { body with filter := some merged }

/-- Sets the condition of an alias in its place, or at the end. -/
def setCondition (name : String) (cond : Expr) :
    List (String × Expr) → List (String × Expr)
  | [] => [(name, cond)]
  | (a, c) :: rest =>
      if a = name then (a, cond) :: rest else (a, c) :: setCondition name cond rest

/-- Adds a join condition for an alias. The first source has nothing to join, so a
condition on it filters. -/
def on (proxy : Proxy) (cond : Operand) : Builder Unit := do
  let cond ← operand cond
  let name := proxy.path.base
  let body := (← get).body
  match body.source? name with
  | none => fail (.unknownAlias name)
  | some source =>
      if source.join.isNone then filter (.expr cond)
      else
        let merged ← conjoin (body.joinCondition? name) cond
        modifyBody fun body =>
          { body with joinConditions := setCondition name merged body.joinConditions }

/-- Adds, for each field of a joined source, the condition that it equals an operand. -/
def onFields (proxy : Proxy) : List (String × Operand) → Builder Unit
  | [] => return ()
  | (field, value) :: rest => do
      let cond ← call .eq [.ref ⟨proxy.body, proxy.path.get field⟩, value]
      on proxy (.expr cond)
      onFields proxy rest

/-! ## Nested queries -/

/-- Opens a body inside the innermost one. -/
def openBody : Builder Unit :=
  modify fun d =>
    { plan := { d.plan with bodies := d.plan.bodies ++ [{}] }
      scope := { body := d.plan.bodies.length }
      outer := d.scope :: d.outer }

/-- Closes the innermost body and hands its error to the one around it. -/
def closeBody : Builder BodyId := do
  let d ← get
  match d.outer with
  | [] => return d.scope.body
  | scope :: outer =>
      set { d with scope, outer }
      match d.outcome with
      | some error => fail error
      | none => pure ()
      return d.scope.body

/-! ## Selection -/

/-- Notes that a whole source row is put out, if the proxy stands for one. -/
def markSpread (proxy : Proxy) : Builder Unit :=
  if proxy.path.isRoot then
    modifyBody fun body =>
      if body.spreadAliases.contains proxy.path.base then body
      else { body with spreadAliases := body.spreadAliases ++ [proxy.path.base] }
  else return ()

/-- The item that puts out every field of a row. -/
def spread (proxy : Proxy) : Builder SelectItem := do
  markSpread proxy
  return .spread (.ref proxy)

def selectFields : List SelectItem → Builder (List SelectField)
  | [] => return []
  | .field name value :: rest => do
      let e ← operand value
      return .named name e :: (← selectFields rest)
  | .spread value :: rest => do
      let e ← operand value
      return .spread e :: (← selectFields rest)

/-- Sets the selection; the first one stays. -/
def setSelection (selection : Selection) : Builder Unit := do
  if (← get).body.selection.isSome then fail .selectionRedefined
  else modifyBody fun body => { body with selection := some selection }

def select (items : List SelectItem) : Builder Unit := do
  setSelection (.fields (← selectFields items))

/-- Selects one value. -/
def selectValue (value : Operand) : Builder Unit := do
  match value with
  | .ref proxy => markSpread proxy
  | _ => pure ()
  setSelection (.value (← operand value))

/-! ## Result options -/

def groupBy (keys : List Operand) : Builder Unit := do
  let keys ← operands keys
  modifyBody fun body => { body with groupBy := some (body.groupExprs ++ keys) }

/-- Adds a condition on groups. -/
def having (cond : Operand) : Builder Unit := do
  let cond ← operand cond
  let merged ← conjoin (← get).body.having cond
  modifyBody fun body => { body with having := some merged }

/-- Adds a sort term of lower priority than the earlier ones. -/
def orderBy (value : Operand) (direction : Direction) : Builder Unit := do
  let e ← operand value
  modifyBody fun body => { body with orderBy := some (body.orderTerms ++ [⟨e, direction⟩]) }

def limit (n : Nat) : Builder Unit :=
  modifyBody fun body => { body with limit := some n }

def offset (n : Nat) : Builder Unit :=
  modifyBody fun body => { body with offset := some n }

def distinct : Builder Unit :=
  modifyBody fun body => { body with distinct := true }

end Builder

end LiveQuery
