import TabularQuery.ColumnType

/-!
Columns: a name and a type. The position of a column is its place in the list that holds it.
-/

namespace TabularQuery

structure Column where
  name : String
  type : ColumnType
  deriving DecidableEq, Repr

/-- The first name that stands in the list before. -/
def Column.repeatedName? : List String → Option String := go []
where
  go (seen : List String) : List String → Option String
    | [] => none
    | name :: rest => if name ∈ seen then some name else go (name :: seen) rest

/-- The first column of a name, with its position. -/
def Column.find? (columns : List Column) (name : String) : Option (Nat × Column) :=
  columns.zipIdx.findSome? fun (c, i) => if c.name = name then some (i, c) else none

end TabularQuery
