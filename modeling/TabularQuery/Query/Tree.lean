import TabularQuery.Value

/-!
Queries as they are written. A literal is a value; parentheses are kept, since the text of an
expression names the field that it makes.
-/

namespace TabularQuery

inductive BinaryOp where
  | add | sub | mul | div | mod | eq | ne | lt | le | gt | ge | like | and | or
  deriving DecidableEq, Repr

inductive UnaryOp where
  | neg | not
  deriving DecidableEq, Repr

namespace BinaryOp

def symbol : BinaryOp → String
  | .add => "+" | .sub => "-" | .mul => "*" | .div => "/" | .mod => "%"
  | .eq => "=" | .ne => "<>" | .lt => "<" | .le => "<=" | .gt => ">" | .ge => ">="
  | .like => "like" | .and => "and" | .or => "or"

/-- Every operator. -/
def all : List BinaryOp :=
  [.add, .sub, .mul, .div, .mod, .eq, .ne, .lt, .le, .gt, .ge, .like, .and, .or]

def ofSymbol? (symbol : String) : Option BinaryOp := all.find? fun op => op.symbol = symbol

def isComparison : BinaryOp → Bool
  | .eq | .ne | .lt | .le | .gt | .ge => true
  | _ => false

def isArithmetic : BinaryOp → Bool
  | .add | .sub | .mul | .div | .mod => true
  | _ => false

end BinaryOp

def UnaryOp.symbol : UnaryOp → String
  | .neg => "-"
  | .not => "not"

inductive Expr where
  | literal (value : Value)
  /-- `Name` or `alias.Name`. -/
  | column (aliasName : Option String) (name : String)
  /-- `Method(args)` or `alias.Method(args)`. -/
  | call (aliasName : Option String) (name : String) (args : List Expr)
  | binary (op : BinaryOp) (left right : Expr)
  | unary (op : UnaryOp) (operand : Expr)
  /-- `operand IN (items)`. -/
  | inList (operand : Expr) (items : List Expr)
  | parens (inner : Expr)

/-- `#schema.method(args)`. -/
structure SchemaCall where
  schema : String
  method : String
  args : List Value
  deriving DecidableEq, Repr

inductive SelectItem where
  /-- `*`, every column of every source. -/
  | star
  | field (expr : Expr) (aliasName : Option String)

inductive FromSource where
  | schema (call : SchemaCall) (aliasName : Option String)
  /-- A table that the same statement defined earlier. -/
  | named (name : String) (aliasName : Option String)
  | join (left right : FromSource) (on : Expr)

structure GroupBy where
  keys : List Expr
  having : Option Expr

structure Query where
  fields : List SelectItem
  source : FromSource
  filter : Option Expr
  groupBy : Option GroupBy
  skip : Option Int64
  take : Option Int64

inductive SetOperator where
  | union | unionAll | except | intersect
  deriving DecidableEq, Repr

def SetOperator.name : SetOperator → String
  | .union => "Union"
  | .unionAll => "UnionAll"
  | .except => "Except"
  | .intersect => "Intersect"

/-- Every set operator. -/
def SetOperator.all : List SetOperator := [.union, .unionAll, .except, .intersect]

def SetOperator.ofName? (name : String) : Option SetOperator := all.find? fun op => op.name = name

inductive SetExpr where
  | query (query : Query)
  /-- `left OPERATOR (keys) right`. -/
  | operation (op : SetOperator) (keys : List String) (left right : SetExpr)

/-- `name AS (body)` in a WITH list. -/
structure NamedTable where
  name : String
  body : SetExpr

inductive Statement where
  | query (tables : List NamedTable) (body : SetExpr)
  | describe (call : SchemaCall)

end TabularQuery
