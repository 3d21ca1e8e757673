import TabularQuery.Plan.Typed
import TabularQuery.Source.Schema

/-!
Statements after binding. Every source has a cursor of its own, unique in the whole program, and
every query, set operation and description a name, which its procedure takes over.
-/

namespace TabularQuery

/-- Where the rows of a source come from. -/
inductive SourceOrigin where
  /-- `#name.method(args)`, the name in lower case. -/
  | schema (schema : Schema) (name method : String) (args : List Value)
  /-- A table that the statement defined earlier. -/
  | table (name : String)

structure BoundSource where
  cursor : Nat
  aliasName : String
  origin : SourceOrigin
  columns : List Column
  /-- The join condition that is tested in the loop over this source. -/
  on : Option TypedExpr

structure BoundField where
  name : String
  expr : TypedExpr

def BoundField.type (f : BoundField) : ColumnType := f.expr.type

/-- The column that a field fills. -/
def BoundField.column (f : BoundField) : Column := ⟨f.name, f.type⟩

structure Grouping where
  keys : List TypedExpr
  having : Option TypedExpr
  /-- Made up because of aggregates in a query without GROUP BY. -/
  implicit : Bool

namespace Grouping

/-- One group for all rows. -/
def single : Grouping := ⟨[.literal (.integer 1)], none, true⟩

end Grouping

structure BoundQuery where
  name : String
  sources : List BoundSource
  filter : Option TypedExpr
  grouping : Option Grouping
  fields : List BoundField
  skip : Option Int64
  take : Option Int64
  slots : List AggregateSlot

namespace BoundQuery

def isJoin (q : BoundQuery) : Bool := q.sources.length > 1

def isGrouped (q : BoundQuery) : Bool := q.grouping.isSome

def hasImplicitGroup (q : BoundQuery) : Bool := q.grouping.any Grouping.implicit

/-- Does the query need more than one loop that filters and writes? -/
def isNested (q : BoundQuery) : Bool := q.isGrouped || q.isJoin

/-- The shape of the query in bits: 1 grouped, 2 a join, 4 grouped without GROUP BY. -/
def shapeBits (q : BoundQuery) : Nat :=
  (if q.isGrouped then 1 else 0) + (if q.isJoin then 2 else 0) +
    (if q.hasImplicitGroup then 4 else 0)

end BoundQuery

inductive BoundSet where
  | query (query : BoundQuery)
  /-- The keys are positions in the fields of the leftmost query. -/
  | operation (op : SetOperator) (name : String) (keyId : Nat) (keys : List Nat)
      (left right : BoundSet)

namespace BoundSet

def name : BoundSet → String
  | .query q => q.name
  | .operation _ name .. => name

/-- The query whose fields name the columns of the result. -/
def leftmost : BoundSet → BoundQuery
  | .query q => q
  | .operation _ _ _ _ left _ => left.leftmost

def fields (s : BoundSet) : List BoundField := s.leftmost.fields

def columns (s : BoundSet) : List Column := s.fields.map BoundField.column

end BoundSet

structure BoundTable where
  name : String
  body : BoundSet

inductive BoundStatement where
  | query (tables : List BoundTable) (body : BoundSet)
  /-- The columns of a source, and the source as the query has it. -/
  | describe (name source : String) (columns : List Column)

structure BoundProgram where
  statements : List BoundStatement
  /-- Names, in order, of the schemas whose tables or methods are used. -/
  libraries : List String
  cursorCount : Nat

end TabularQuery
