import LiveQuery.Plan.Expr

/-!
# Query plans

A plan holds the bodies of its queries by number. A body is one `select` with its
sources, conditions and result options; its sources and its subqueries name other
bodies of the plan. Plans only grow, so a number stands for one body for good.
-/

namespace LiveQuery

/-- The number of a base collection. -/
abbrev CollectionId := Nat

/-- The number of a source in its plan. -/
abbrev SourceId := Nat

inductive JoinKind where
  | inner
  | left
  | right
  | full
deriving DecidableEq

namespace JoinKind

/-- Whether rows bound so far are kept when nothing joins them. -/
def keepsLeft : JoinKind → Bool
  | left => true
  | full => true
  | _ => false

/-- Whether rows of the joined source are kept when they join nothing. -/
def keepsRight : JoinKind → Bool
  | right => true
  | full => true
  | _ => false

def name : JoinKind → String
  | inner => "inner"
  | left => "left"
  | right => "right"
  | full => "full"

def ofName? : String → Option JoinKind
  | "inner" => some inner
  | "left" => some left
  | "right" => some right
  | "full" => some full
  | _ => none

end JoinKind

/-- A base collection as a plan knows it. -/
structure CollectionRef where
  id : CollectionId
  name : String
deriving DecidableEq

/-- What a source reads. -/
inductive Origin where
  | collection (ref : CollectionRef)
  | query (body : BodyId)
deriving DecidableEq

/-- A source bound to an alias in a body; the first one of a body is not joined. -/
structure Source where
  id : SourceId
  name : String
  origin : Origin
  join : Option JoinKind
deriving DecidableEq

inductive Direction where
  | asc
  | desc
deriving DecidableEq

def Direction.ofName? : String → Option Direction
  | "asc" => some asc
  | "desc" => some desc
  | _ => none

/-- An expression to sort by. -/
structure OrderTerm where
  expr : Expr
  direction : Direction

/-- A field of the output, or all fields of a row. -/
inductive SelectField where
  | named (name : String) (expr : Expr)
  | spread (expr : Expr)

def SelectField.expr : SelectField → Expr
  | named _ expr => expr
  | spread expr => expr

/-- What a body puts out: fields, or one value. A value that is a row becomes the
output row, any other its field `value`. -/
inductive Selection where
  | fields (items : List SelectField)
  | value (expr : Expr)

def Selection.exprs : Selection → List Expr
  | fields items => items.map SelectField.expr
  | value expr => [expr]

/-- One `select`. Join conditions go by the alias of the joined source. -/
structure Body where
  sources : List Source := []
  joinConditions : List (String × Expr) := []
  filter : Option Expr := none
  selection : Option Selection := none
  groupBy : Option (List Expr) := none
  having : Option Expr := none
  orderBy : Option (List OrderTerm) := none
  limit : Option Nat := none
  offset : Option Nat := none
  distinct : Bool := false
  spreadAliases : List String := []

namespace Body

instance : Inhabited Body := ⟨{}⟩

/-- The join condition of a joined alias. -/
def joinCondition? (body : Body) (name : String) : Option Expr :=
  body.joinConditions.lookup name

def selectionExprs (body : Body) : List Expr :=
  match body.selection with
  | some selection => selection.exprs
  | none => []

def joinExprs (body : Body) : List Expr :=
  body.joinConditions.map Prod.snd

def groupExprs (body : Body) : List Expr :=
  body.groupBy.getD []

def orderTerms (body : Body) : List OrderTerm :=
  body.orderBy.getD []

/-- All expressions of the body itself. -/
def expressions (body : Body) : List Expr :=
  body.selectionExprs ++ body.joinExprs ++ body.filter.toList ++ body.groupExprs
    ++ body.having.toList ++ body.orderTerms.map OrderTerm.expr

/-- The first source with an alias. -/
def source? (body : Body) (name : String) : Option Source :=
  body.sources.find? fun source => source.name = name

/-- The position of the first source with an alias. -/
def position? (body : Body) (name : String) : Option Nat :=
  body.sources.findIdx? fun source => source.name = name

/-- Whether a source of the body has the alias. -/
def binds (body : Body) (name : String) : Bool :=
  body.sources.any fun source => source.name = name

/-- Whether the output is made of groups: by request, or because an aggregate asks for
the one group of all tuples. -/
def isGrouped (body : Body) : Bool :=
  body.groupBy.isSome
    || (body.selectionExprs ++ body.having.toList).any Expr.containsAggregate

/-- Whether the output is sorted, cut or made distinct. -/
def isWindowed (body : Body) : Bool :=
  body.distinct || body.orderBy.isSome || body.limit.isSome || body.offset.isSome

/-- Whether no source is joined by an outer join. -/
def innerOnly (body : Body) : Bool :=
  body.sources.all fun source => source.join = none || source.join = some .inner

end Body

/-- The bodies made so far, with the references and subqueries to use again and the
counters for new numbers and aliases. -/
structure Plan where
  bodies : List Body := []
  references : List ((BodyId × Path) × Expr) := []
  subqueries : List (BodyId × Expr) := []
  exprCount : Nat := 0
  sourceCount : Nat := 0
  aliasCount : Nat := 0

namespace Plan

instance : Inhabited Plan := ⟨{}⟩

/-- The body with a number, an empty one if there is none. -/
def body (plan : Plan) (id : BodyId) : Body :=
  plan.bodies.getD id {}

/-- No chain of different bodies is longer than this. -/
def depth (plan : Plan) : Nat :=
  plan.bodies.length

end Plan

end LiveQuery
