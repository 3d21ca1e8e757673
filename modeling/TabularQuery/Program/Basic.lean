import TabularQuery.Program.Instruction
import TabularQuery.Source.Schema

/-!
Programs: procedures, which run in order, and the tables, row sources and groupings that their
instructions name by position.
-/

namespace TabularQuery

structure Procedure where
  name : String
  code : Array Instruction

/-- A table that a procedure creates. -/
structure TableDeclaration where
  name : String
  columns : List Column
  deriving DecidableEq, Repr

/-- A row source with its arguments. Its rows are read by the names of the columns. -/
structure SourceBinding where
  schema : Schema
  /-- Name of the schema in listings. -/
  schemaName : String
  method : String
  args : List Value
  columns : List Column

namespace SourceBinding

/-- An argument in a listing. -/
def argumentText : Value → String
  | .text s => "'" ++ s ++ "'"
  | v => v.render

/-- The source as listings show it. -/
def text (b : SourceBinding) : String :=
  "#" ++ b.schemaName ++ "." ++ b.method ++ "(" ++ ", ".intercalate (b.args.map argumentText) ++ ")"

end SourceBinding

/-- The groups of one query: types of the key, cursors whose rows a group keeps, and accumulators,
each with its name in listings. -/
structure GroupingDeclaration where
  keyTypes : List ColumnType
  cursors : List Nat
  slots : List (String × Aggregate)
  deriving DecidableEq, Repr

structure Program where
  procedures : List Procedure
  tables : List TableDeclaration
  sources : List SourceBinding
  groupings : List GroupingDeclaration
  cursorCount : Nat
  registerCount : Nat
  /-- Position of the table that a run gives. -/
  result : Nat
  /-- Names, in order, of the schemas that the program uses. -/
  libraries : List String

namespace Program

/-- Columns of the result. -/
def columns (p : Program) : List Column := (p.tables[p.result]?.map TableDeclaration.columns).getD []

/-- The first procedure of a name. -/
def procedure? (p : Program) (name : String) : Option Procedure :=
  p.procedures.find? fun q => q.name = name

def procedureNames (p : Program) : List String := p.procedures.map Procedure.name

/-- The number of instructions. -/
def size (p : Program) : Nat := p.procedures.foldl (fun n q => n + q.code.size) 0

end Program

end TabularQuery
