import LiveQuery.Function
import LiveQuery.Scalar.Text

/-!
# Expressions

An expression is a tree whose nodes carry the number under which the plan made them.
The number is the identity of a node: the plan makes one reference for each path that
is read through a body, and two uses of a node are uses of the same object.
-/

namespace LiveQuery

/-- The number of a query body in its plan. -/
abbrev BodyId := Nat

/-- The number of an expression in its plan. -/
abbrev ExprId := Nat

/-- A path that starts at the alias of a source and descends into fields. -/
structure Path where
  base : String
  fields : List String
deriving DecidableEq

namespace Path

/-- The alias and the fields, separated by points. -/
def toText (path : Path) : String :=
  ".".intercalate (path.base :: path.fields)

/-- The path to a field below this one. -/
def get (path : Path) (field : String) : Path :=
  { path with fields := path.fields ++ [field] }

/-- The path to the field that a text with points between the names leads to. -/
def getDotted (path : Path) (dotted : String) : Path :=
  (dotted.splitOn ".").foldl get path

/-- Whether the path stands for a whole row. -/
def isRoot (path : Path) : Bool :=
  path.fields.isEmpty

end Path

/-- An expression. A subquery is evaluated as a value: the only field of its first
row, or that row, or null when there is none. -/
inductive Expr where
  | literal (id : ExprId) (value : Scalar)
  | reference (id : ExprId) (path : Path)
  | call (id : ExprId) (function : Function) (args : List Expr)
  | aggregate (id : ExprId) (function : Aggregate) (args : List Expr)
  | subquery (id : ExprId) (body : BodyId)

namespace Expr

instance : Inhabited Expr := ⟨.literal 0 .null⟩

def id : Expr → ExprId
  | literal id _ => id
  | reference id _ => id
  | call id _ _ => id
  | aggregate id _ _ => id
  | subquery id _ => id

/-- The arguments of a call or an aggregate. -/
def children : Expr → List Expr
  | call _ _ args => args
  | aggregate _ _ args => args
  | _ => []

mutual

/-- The expression and all below it, without the bodies of subqueries. -/
def subterms : Expr → List Expr
  | literal id value => [literal id value]
  | reference id path => [reference id path]
  | subquery id body => [subquery id body]
  | call id function args => call id function args :: subtermsOf args
  | aggregate id function args => aggregate id function args :: subtermsOf args

def subtermsOf : List Expr → List Expr
  | [] => []
  | e :: rest => subterms e ++ subtermsOf rest

end

def isAggregate : Expr → Bool
  | aggregate .. => true
  | _ => false

def isSubquery : Expr → Bool
  | subquery .. => true
  | _ => false

def isLiteral : Expr → Bool
  | literal .. => true
  | _ => false

/-- The alias that a reference starts at. -/
def alias? : Expr → Option String
  | reference _ path => some path.base
  | _ => none

def containsAggregate (e : Expr) : Bool :=
  e.subterms.any isAggregate

def containsSubquery (e : Expr) : Bool :=
  e.subterms.any isSubquery

/-- The aliases that the references of an expression start at, each once. -/
def aliases (e : Expr) : List String :=
  (e.subterms.filterMap alias?).eraseDups

mutual

/-- The parts of a conjunction, nested ones included. -/
def conjuncts : Expr → List Expr
  | call _ .and args => conjunctsOf args
  | e => [e]

def conjunctsOf : List Expr → List Expr
  | [] => []
  | e :: rest => conjuncts e ++ conjunctsOf rest

end

mutual

/-- An expression as it is shown to people. -/
def describe : Expr → String
  | literal _ (.text s) => Text.quoted s
  | literal _ value => value.toText
  | reference _ path => path.toText
  | call _ function args => function.name ++ "(" ++ describeAll args ++ ")"
  | aggregate _ function args => function.name ++ "(" ++ describeAll args ++ ")"
  | subquery _ body => "subquery#" ++ toString body

/-- Expressions separated by commas. -/
def describeAll : List Expr → String
  | [] => ""
  | [e] => describe e
  | e :: rest => describe e ++ ", " ++ describeAll rest

end

@[simp] theorem subtermsOf_nil : subtermsOf [] = [] := rfl

theorem self_mem_subterms (e : Expr) : e ∈ e.subterms := by
  cases e <;> simp [subterms]

end Expr

end LiveQuery
